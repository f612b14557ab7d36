/-
  Cdht/IniRefinement.lean
  =======================
  **The parser performs the events of its file.**

  One lemma for each helper of `ini.c` says what it does to the strings in the line
  buffer; from these, `parseLine` does to the parser what `readKind` says (`parseLine_spec`),
  and the loop over the lines performs the events of the file (`iniParseFile_performs`).
  Since the right side of that equation is about texts only, no file makes the parser
  leave its buffers or read bytes that were not written.
-/
import Cdht.IniGrammar

namespace Cdht.IniRefinement

open Cdht.Memory Cdht.Format Cdht.Strings Cdht.TextBuffer Cdht.Ini Cdht.IniGrammar
open Cdht.Settings (isspace)

/-! ### The helpers -/

/-- The part of a block outside `[from, to)` is as before. -/
structure Framed (start stop : Nat) (block block' : Block) : Prop where
  front : block'.take start = block.take start
  back : block'.drop stop = block.drop stop
  length : block'.length = block.length

theorem Framed.refl (start stop : Nat) (block : Block) : Framed start stop block block :=
  ⟨rfl, rfl, rfl⟩

theorem framed_set {start stop index : Nat} (hstart : start ≤ index) (hstop : index < stop)
    (block : Block) (cell : Option UInt8) : Framed start stop block (block.set index cell) where
  front := List.take_set_of_le hstart
  back := List.drop_set_of_lt hstop
  length := List.length_set

theorem Framed.trans {start stop : Nat} {block block' block'' : Block}
    (h : Framed start stop block block') (h' : Framed start stop block' block'') :
    Framed start stop block block'' :=
  ⟨h'.front.trans h.front, h'.back.trans h.back, h'.length.trans h.length⟩

theorem Framed.mono {start stop stop' : Nat} {block block' : Block} (h : Framed start stop block block')
    (hstop : stop ≤ stop') : Framed start stop' block block' := by
  obtain ⟨more, rfl⟩ := Nat.exists_eq_add_of_le hstop
  refine ⟨h.front, ?_, h.length⟩
  rw [← List.drop_drop, h.back, List.drop_drop]

theorem iniRstrip_spec {line : Block} {s : Nat} {text : Bytes} (h : TextAt line s text) :
    ∃ line', iniRstrip s (s + text.length) line = .ok line' ∧ TextAt line' s (trimEnd text) ∧
      Framed s (s + text.length) line line' := by
  induction text using List.reverseRecOn generalizing line with
  | nil =>
    refine ⟨line, ?_, h, Framed.refl _ _ _⟩
    cases s with
    | zero => rfl
    | succ s => rw [List.length_nil, Nat.add_zero, iniRstrip, if_neg (Nat.lt_irrefl _)]
  | append_singleton text char ih =>
    have hchar : charAt line (s + text.length) = .ok char := h.suffix.charAt
    rw [List.length_append, List.length_singleton, ← Nat.add_assoc, iniRstrip,
      if_pos (by omega), hchar, ok_bind]
    by_cases hspace : isspace char = true
    · have hlength := h.length_lt
      rw [List.length_append, List.length_singleton] at hlength
      obtain ⟨line', hstrip, htext, hframe⟩ := ih h.cut.1
      refine ⟨line', ?_, ?_, ?_⟩
      · rw [if_pos hspace, putNul_eq (by omega), ok_bind, hstrip]
      · rw [trimEnd, List.rdropWhile_concat_pos _ _ _ hspace]
        exact htext
      · exact (framed_set (by omega) (by omega) _ _).trans (hframe.mono (by omega))
    · refine ⟨line, ?_, ?_, Framed.refl _ _ _⟩
      · rw [if_neg hspace, pure_eq_ok]
      · rw [trimEnd, List.rdropWhile_concat_neg _ _ _ hspace]
        exact h

theorem iniLskip_eq {line : Block} {s : Nat} {text : Bytes} (h : TextAt line s text) :
    iniLskip line s = .ok (s + (text.takeWhile isspace).length) ∧
      TextAt line (s + (text.takeWhile isspace).length) (trimStart text) := by
  constructor
  · rw [iniLskip, h.scan, scanned_eq_takeWhile]
  · apply TextAt.suffix
    rw [trimStart, List.takeWhile_append_dropWhile]
    exact h

theorem iniFind_eq {line : Block} {s : Nat} {text : Bytes} (h : TextAt line s text)
    (chars : Bytes) :
    iniFindCharsOrComment line s chars = .ok (s + (upTo chars text).length) := h.scan _ _

/-- A text is what is before the stop and what follows. -/
theorem upTo_append_drop (chars text : Bytes) :
    upTo chars text ++ text.drop (upTo chars text).length = text :=
  List.prefix_iff_eq_append.mp (scanned_front _ _ _)

theorem charAt_upTo {line : Block} {s : Nat} {text : Bytes} (h : TextAt line s text)
    (chars : Bytes) :
    charAt line (s + (upTo chars text).length) =
      .ok ((text.drop (upTo chars text).length).head?.getD 0) := by
  rw [← upTo_append_drop chars text] at h
  exact h.suffix.charAt

theorem length_upTo_le (chars text : Bytes) : (upTo chars text).length ≤ text.length :=
  (scanned_front _ _ _).length_le

/-- The NUL that is written where `ini_find_chars_or_comment` stops. -/
theorem cut_upTo {line : Block} {s : Nat} {text : Bytes} (h : TextAt line s text) (chars : Bytes) :
    ∃ line', putNul line (s + (upTo chars text).length) = .ok line' ∧
      TextAt line' s (upTo chars text) ∧
      (∀ stop back, text.drop (upTo chars text).length = stop :: back →
        TextAt line' (s + (upTo chars text).length + 1) back) ∧
      Framed s (s + (upTo chars text).length + 1) line line' := by
  have hle := length_upTo_le chars text
  have hlength := h.length_lt
  have hsplit := upTo_append_drop chars text
  refine ⟨_, putNul_eq (by omega), ?_, ?_, framed_set (by omega) (by omega) _ _⟩
  · rcases htail : text.drop (upTo chars text).length with _ | ⟨stop, back⟩
    · rw [htail, List.append_nil] at hsplit
      rw [hsplit, h.set_end]
      exact h
    · rw [htail] at hsplit
      rw [← hsplit] at h
      exact h.cut.1
  · intro stop back htail
    rw [htail] at hsplit
    rw [← hsplit] at h
    exact h.cut.2

/-! ### Copies of names -/

/-- The loop of `ini_strncpy0` behind the `i` characters that it has copied. -/
theorem strncpy0Loop_spec {line : Block} {src : Nat} {text : Bytes} (h : TextAt line src text)
    (n i : Nat) {dest : Block} (hi : i ≤ text.length) (hroom : i + n < dest.length)
    (hdone : dest.take i = (text.take i).map some) :
    ∃ dest', strncpy0Loop line src n i dest = .ok dest' ∧ dest'.length = dest.length ∧
      TextAt dest' 0 (text.take (i + n)) := by
  have hnul : ∀ k, (0 : UInt8) ∉ text.take k := fun k hmem => h.noNul (List.mem_of_mem_take hmem)
  induction n generalizing i dest with
  | zero =>
    exact ⟨_, putNul_eq (by omega), List.length_set, textAt_set_nul hdone (by omega) (hnul _)⟩
  | succ n ih =>
    rw [strncpy0Loop, (h.drop hi).charAt, ok_bind]
    by_cases hmore : i < text.length
    · have hchar : (text.drop i).head?.getD 0 = text[i] := by
        rw [List.head?_drop, List.getElem?_eq_getElem hmore]
        rfl
      have hne : text[i] ≠ 0 := fun heq => h.noNul (heq ▸ List.getElem_mem hmore)
      have hnext : (dest.set i (some text[i])).take (i + 1) = (text.take (i + 1)).map some := by
        rw [List.take_succ_eq_append_getElem (by rw [List.length_set]; omega),
          List.take_set_of_le (Nat.le_refl i), hdone, List.getElem_set_self,
          List.take_succ_eq_append_getElem hmore, List.map_append]
        rfl
      obtain ⟨dest', hloop, hlength, htext⟩ := ih (i + 1) hmore
        (by rw [List.length_set]; omega) hnext
      refine ⟨dest', ?_, ?_, ?_⟩
      · rw [hchar, if_pos hne, store_singleton (by omega), ok_bind, hloop]
      · rw [hlength, List.length_set]
      · rw [Nat.add_right_comm] at htext
        exact htext
    · have hend : (text.drop i).head?.getD 0 = 0 := by
        rw [List.drop_of_length_le (by omega)]
        rfl
      have hall : text.take (i + (n + 1)) = text.take i := by
        rw [List.take_of_length_le (by omega), List.take_of_length_le (by omega)]
      rw [hend, if_neg (by simp), hall]
      exact ⟨_, putNul_eq (by omega), List.length_set, textAt_set_nul hdone (by omega) (hnul _)⟩

theorem iniStrncpy0_spec {dest line : Block} {src size : Nat} {text : Bytes}
    (h : TextAt line src text) (hsize : 0 < size) (hdest : dest.length = size) :
    ∃ dest', iniStrncpy0 dest line src size = .ok dest' ∧ dest'.length = size ∧
      TextAt dest' 0 (text.take (size - 1)) := by
  obtain ⟨dest', hcopy, hlength, htext⟩ := strncpy0Loop_spec h (size - 1) 0 (Nat.zero_le _)
    (by omega : 0 + (size - 1) < dest.length) rfl
  rw [Nat.zero_add] at htext
  exact ⟨dest', hcopy, hlength.trans hdest, htext⟩

/-! ### One line -/

section Lines

variable {υ : Type}

/-- The buffers of the parser hold what was read so far. -/
structure Reads (reading : Reading) (parser : Parser υ) : Prop where
  lineLength : parser.line.length = 200
  sectionName : TextAt parser.sectionName 0 reading.sectionName
  sectionLength : parser.sectionName.length = 50
  prevName : TextAt parser.prevName 0 reading.prevName
  prevLength : parser.prevName.length = 50

theorem Reads.withLine {reading : Reading} {parser : Parser υ} (h : Reads reading parser)
    {line : Block} (hline : line.length = 200) : Reads reading { parser with line := line } :=
  ⟨hline, h.sectionName, h.sectionLength, h.prevName, h.prevLength⟩

theorem flag_eq (parser : Parser υ) :
    parser.flag = { parser with error := flagged parser.error parser.lineno } := by
  unfold Parser.flag flagged
  split
  · rfl
  · rfl

theorem stringArg_eq {block : Block} {index : Nat} {text : Bytes} (h : TextAt block index text) :
    stringArg block index = .ok (CString.ofBuffer text) := by
  rw [stringArg, h.stringAt]
  rfl

variable (handler : IniHandler υ)

/-- A step of the parser that performs the events of one line and then has read
    `reading`. -/
def Performs (parser : Parser υ) (result : Reading × List Event) (step : Exec (Parser υ)) : Prop :=
  ∃ after : Parser υ, Reads result.1 after ∧ after.lineno = parser.lineno ∧
    step = (do
      let (error, user) ← perform handler parser.error parser.user
        (result.2.map fun event => (parser.lineno, event))
      return { after with error := error, user := user })

theorem performs_nothing {reading : Reading} {parser after : Parser υ} (h : Reads reading after)
    (hlineno : after.lineno = parser.lineno) (herror : after.error = parser.error)
    (huser : after.user = parser.user) : Performs handler parser (reading, []) (.ok after) := by
  refine ⟨after, h, hlineno, ?_⟩
  rw [List.map_nil, perform, ok_bind, ← herror, ← huser]
  rfl

theorem performs_mistake {reading : Reading} {parser : Parser υ} (h : Reads reading parser) :
    Performs handler parser (reading, [none]) (.ok parser.flag) := by
  refine ⟨parser, h, rfl, ?_⟩
  rw [flag_eq]
  rfl

theorem performs_call {reading reading' : Reading} {parser after : Parser υ}
    (h : Reads reading' after) (hsection : reading'.sectionName = reading.sectionName)
    (hlineno : after.lineno = parser.lineno) (herror : after.error = parser.error)
    (huser : after.user = parser.user) (name value : Bytes) :
    Performs handler parser (reading', [some (setting reading.sectionName name value)])
      (callHandler handler after (CString.ofBuffer name) (CString.ofBuffer value)) := by
  refine ⟨after, h, hlineno, ?_⟩
  have hsectionName := h.sectionName
  rw [hsection] at hsectionName
  rw [callHandler, stringArg_eq hsectionName, ok_bind, huser]
  simp only [List.map_cons, List.map_nil, perform, performEvent, setting]
  rcases handler parser.user (CString.ofBuffer reading.sectionName) (CString.ofBuffer name)
    (CString.ofBuffer value) with fault | ⟨code, user⟩
  · rfl
  · by_cases hcode : code = 0
    · simp only [ok_bind, pure_eq_ok, hcode, if_true, flag_eq, herror, hlineno]
    · simp only [ok_bind, pure_eq_ok, hcode, if_false, ← herror]

theorem parseContinuation_spec {reading : Reading} {parser : Parser υ} {start : Nat} {text : Bytes}
    (h : Reads reading parser) (htext : TextAt parser.line start text) :
    Performs handler parser (readKind reading (.continuation (trimEnd (upTo [] text))))
      (parseContinuation handler parser start) := by
  obtain ⟨line, hput, hcut, -, hframe⟩ := cut_upTo htext []
  obtain ⟨line', hstrip, htrim, hframe'⟩ := iniRstrip_spec hcut
  have hlength : line'.length = 200 := by rw [hframe'.length, hframe.length, h.lineLength]
  simp only [parseContinuation, iniFind_eq htext, ok_bind, hput, hstrip, stringArg_eq h.prevName,
    stringArg_eq htrim]
  exact performs_call handler (h.withLine hlength) rfl rfl rfl rfl _ _

theorem parseHeading_spec {reading : Reading} {parser : Parser υ} {start : Nat} {text : Bytes}
    {char : UInt8} (h : Reads reading parser) (htext : TextAt parser.line start (char :: text)) :
    Performs handler parser (readKind reading (headingOf text)) (parseHeading parser start) := by
  have hrest : TextAt parser.line (start + 1) text := htext.tail
  obtain ⟨line, hput, hcut, -, hframe⟩ := cut_upTo hrest (ascii "]")
  simp only [parseHeading, iniFind_eq hrest, ok_bind, charAt_upTo hrest, headingOf]
  rcases hstop : (text.drop (upTo (ascii "]") text).length).head? with _ | stop
  · rw [if_neg (by decide), if_neg (by simp)]
    exact performs_mistake handler h
  · by_cases hbracket : stop = 93
    · subst hbracket
      obtain ⟨sectionName, hcopy, hlength, hname⟩ :=
        iniStrncpy0_spec hcut (by decide) h.sectionLength
      have hpos : 0 < parser.prevName.length := by rw [h.prevLength]; decide
      have hempty : TextAt (parser.prevName.set 0 (some 0)) 0 [] :=
        textAt_set_nul rfl hpos List.not_mem_nil
      simp only [Option.getD_some, if_true, hput, ok_bind, hcopy, putNul_eq hpos]
      exact performs_nothing handler ⟨by rw [hframe.length, h.lineLength], hname, hlength, hempty,
        by rw [List.length_set, h.prevLength]⟩ rfl rfl rfl
    · rw [Option.getD_some, if_neg hbracket, if_neg (by simpa using hbracket)]
      exact performs_mistake handler h

theorem parsePair_spec {reading : Reading} {parser : Parser υ} {start : Nat} {text : Bytes}
    (h : Reads reading parser) (htext : TextAt parser.line start text) :
    Performs handler parser (readKind reading (settingOf text))
      (parsePair handler parser start) := by
  obtain ⟨line, hput, hname, hbehind, hframe⟩ := cut_upTo htext (ascii "=:")
  have hchar := charAt_upTo htext (ascii "=:")
  rw [settingOf]
  rcases hstop : text.drop (upTo (ascii "=:") text).length with _ | ⟨stop, value⟩
  · rw [hstop, List.head?_nil, Option.getD_none] at hchar
    simp only [parsePair, iniFind_eq htext, ok_bind, hchar]
    rw [if_neg (by decide)]
    exact performs_mistake handler h
  rw [hstop, List.head?_cons, Option.getD_some] at hchar
  simp only [parsePair, iniFind_eq htext, ok_bind, hchar]
  by_cases hpair : stop = 61 ∨ stop = 58
  · -- the name, stripped in place before the value
    obtain ⟨line₁, hstrip, htrimmed, hframe₁⟩ := iniRstrip_spec hname
    have hvalue : TextAt line₁ (start + (upTo (ascii "=:") text).length + 1) value :=
      (hbehind stop value hstop).of_drop_eq (Nat.le_succ _) hframe₁.back
    -- the value, cut at a comment and stripped behind the name
    obtain ⟨line₂, hput₂, hcut, -, hframe₂⟩ := cut_upTo hvalue []
    obtain ⟨hskip, hskipped⟩ := iniLskip_eq hcut
    obtain ⟨line₃, hstrip₃, htrim, hframe₃⟩ := iniRstrip_spec hskipped
    have hstop₃ : start + (upTo (ascii "=:") text).length + 1 +
        ((upTo [] value).takeWhile isspace).length + (trimStart (upTo [] value)).length =
        start + (upTo (ascii "=:") text).length + 1 + (upTo [] value).length := by
      rw [Nat.add_assoc, trimStart, ← List.length_append, List.takeWhile_append_dropWhile]
    rw [hstop₃] at hstrip₃
    have hshorter : (trimEnd (upTo (ascii "=:") text)).length ≤ (upTo (ascii "=:") text).length :=
      (List.rdropWhile_prefix _ _).length_le
    have hkept : TextAt line₃ start (trimEnd (upTo (ascii "=:") text)) :=
      (htrimmed.of_take_eq (by omega) hframe₂.front).of_take_eq (by omega) hframe₃.front
    obtain ⟨prevName, hcopy, hprevLength, hprev⟩ := iniStrncpy0_spec hkept (by decide) h.prevLength
    have hlength : line₃.length = 200 := by
      rw [hframe₃.length, hframe₂.length, hframe₁.length, hframe.length, h.lineLength]
    have hreads : Reads ⟨reading.sectionName, (trimEnd (upTo (ascii "=:") text)).take 49⟩
        { parser with line := line₃, prevName := prevName } :=
      ⟨hlength, h.sectionName, h.sectionLength, hprev, hprevLength⟩
    simp only [if_pos hpair, hput, hstrip, iniFind_eq hvalue, hput₂, hskip, hstrip₃, hcopy,
      ok_bind, stringArg_eq hkept, stringArg_eq htrim]
    exact performs_call handler hreads rfl rfl rfl rfl _ _
  · rw [if_neg hpair, if_neg hpair]
    exact performs_mistake handler h

theorem skipBom_eq {parser : Parser υ} {text : Bytes} (htext : TextAt parser.line 0 text) :
    skipBom parser = .ok (bomLength (parser.lineno = 1) text) := by
  by_cases hfirst : parser.lineno = 1
  · -- the three comparisons stop at the first difference, the NUL included
    simp only [skipBom, bomLength, hfirst, ne_eq, not_true_eq_false, if_false, htext.charAt,
      ok_bind, decide_true, Bool.true_and]
    rcases text with _ | ⟨first, text⟩
    · rfl
    by_cases hEF : first = 0xEF
    · subst hEF
      simp only [List.head?_cons, Option.getD_some, not_true_eq_false, if_false, htext.tail.charAt,
        ok_bind]
      rcases text with _ | ⟨second, text⟩
      · rfl
      by_cases hBB : second = 0xBB
      · subst hBB
        simp only [List.head?_cons, Option.getD_some, not_true_eq_false, if_false,
          htext.tail.tail.charAt, ok_bind]
        rcases text with _ | ⟨third, text⟩
        · rfl
        by_cases hBF : third = 0xBF
        · subst hBF
          rfl
        · simp [hBF, Ne.symm hBF]
      · simp [hBB, Ne.symm hBB]
    · simp [hEF, Ne.symm hEF]
  · simp [skipBom, bomLength, hfirst]

theorem bomLength_le (first : Bool) (text : Bytes) : bomLength first text ≤ text.length := by
  rw [bomLength]
  split
  · rename_i h
    rw [Bool.and_eq_true] at h
    exact (List.isPrefixOf_iff_prefix.mp h.2).length_le
  · exact Nat.zero_le _

/-- **One line of the parser is one line of the description.** -/
theorem parseLine_spec {reading : Reading} {parser : Parser υ} {text : Bytes}
    (h : Reads reading parser) (htext : TextAt parser.line 0 text) :
    Performs handler parser (readKind reading (kindOf reading (parser.lineno = 1) text))
      (parseLine handler parser text.length) := by
  have hbom := bomLength_le (parser.lineno = 1) text
  have hbody := htext.drop hbom
  rw [Nat.zero_add] at hbody
  obtain ⟨hskip, hstart⟩ : iniLskip parser.line (bomLength (parser.lineno = 1) text) =
      .ok (indent (parser.lineno = 1) text) ∧ TextAt parser.line (indent (parser.lineno = 1) text)
        (trimStart (text.drop (bomLength (parser.lineno = 1) text))) := iniLskip_eq hbody
  obtain ⟨line, hstrip, htrim, hframe⟩ := iniRstrip_spec hstart
  have hstop : indent (parser.lineno = 1) text +
      (trimStart (text.drop (bomLength (parser.lineno = 1) text))).length = text.length := by
    rw [indent, Nat.add_assoc, trimStart, ← List.length_append, List.takeWhile_append_dropWhile,
      List.length_drop]
    omega
  rw [hstop] at hstrip
  have hreads : Reads reading { parser with line := line } :=
    h.withLine (hframe.length.trans h.lineLength)
  simp only [parseLine, skipBom_eq htext, ok_bind, hskip, hstrip, htrim.charAt,
    h.prevName.charAt, kindOf]
  generalize hbodyText : trimEnd (trimStart (text.drop (bomLength (parser.lineno = 1) text))) =
    body at htrim
  have hnul := htrim.noNul
  rcases body with _ | ⟨char, rest⟩
  · exact performs_nothing handler hreads rfl rfl rfl
  rw [List.mem_cons, not_or] at hnul
  have hprev : reading.prevName.head?.getD 0 ≠ 0 ↔ reading.prevName ≠ [] := by
    rcases hname : reading.prevName with _ | ⟨first, name⟩
    · simp
    · have hfirst : (0 : UInt8) ≠ first := fun heq =>
        h.prevName.noNul (hname ▸ heq ▸ List.mem_cons_self)
      simp [Ne.symm hfirst]
  rw [List.head?_cons, Option.getD_some, classify]
  by_cases hcomment : (ascii ";#").contains char = true
  · rw [if_pos (Or.inr hcomment), if_pos hcomment]
    exact performs_nothing handler hreads rfl rfl rfl
  have hplain : ¬ (char = 0 ∨ (ascii ";#").contains char = true) :=
    not_or.mpr ⟨Ne.symm hnul.1, hcomment⟩
  rw [if_neg hcomment, if_neg hplain]
  have hboth : (decide (reading.prevName ≠ []) &&
      decide (0 < indent (parser.lineno = 1) text)) = true ↔
      reading.prevName.head?.getD 0 ≠ 0 ∧ char ≠ 0 ∧ 0 < indent (parser.lineno = 1) text := by
    rw [Bool.and_eq_true, decide_eq_true_eq, decide_eq_true_eq, hprev]
    exact ⟨fun hc => ⟨hc.1, Ne.symm hnul.1, hc.2⟩, fun hc => ⟨hc.1, hc.2.2⟩⟩
  by_cases hcontinues : (decide (reading.prevName ≠ []) &&
      decide (0 < indent (parser.lineno = 1) text)) = true
  · rw [if_pos hcontinues, if_pos (hboth.mp hcontinues)]
    exact parseContinuation_spec handler hreads htrim
  rw [if_neg hcontinues, if_neg (mt hboth.mpr hcontinues)]
  by_cases hbracket : char = 91
  · rw [if_pos hbracket, if_pos hbracket]
    exact parseHeading_spec handler hreads htrim
  · rw [if_neg hbracket, if_neg hbracket, if_pos (Ne.symm hnul.1)]
    exact parsePair_spec handler hreads htrim

end Lines

/-! ### Readers -/

/-- A reader whose streams hand out the bytes of a file as `fgets` does; `rest stream
    file` says that `file` is what is left of `stream`. -/
def ReadsAs {σ : Type} (reader : IniReader σ) (rest : σ → Bytes → Prop) : Prop :=
  ∀ {stream file str num}, rest stream file → 2 ≤ num → num ≤ str.length →
    (file = [] → reader.read str num stream = .ok none) ∧
    (file ≠ [] → ∃ str' stream', reader.read str num stream = .ok (some (str', stream')) ∧
      rest stream' (fgetsChunk (num - 1) file).2 ∧
      TextAt str' 0 (cstr (fgetsChunk (num - 1) file).1) ∧ str'.length = str.length)

theorem length_fgetsChunk_le (n : Nat) (file : Bytes) : (fgetsChunk n file).1.length ≤ n := by
  induction n generalizing file with
  | zero => exact Nat.le_refl _
  | succ n ih =>
    cases file with
    | nil => exact Nat.zero_le _
    | cons char file =>
      rw [fgetsChunk]
      split
      · exact Nat.succ_le_succ (Nat.zero_le n)
      · exact Nat.succ_le_succ (ih file)

/-- The buffer after a terminated piece was stored at its beginning. -/
theorem store_piece {str : Block} {piece : Bytes} (h : piece.length < str.length) :
    ∃ str', store str 0 (piece ++ [0]) = .ok str' ∧ TextAt str' 0 (cstr piece) ∧
      str'.length = str.length := by
  have hfits : 0 + ((piece ++ [0]).map some : Block).length ≤ str.length := by
    rw [List.length_map, List.length_append, List.length_singleton]
    omega
  refine ⟨_, by rw [store, writeAt, if_pos hfits], ?_, ?_⟩
  · apply textAt_cstr
    rw [List.drop_zero, List.take_zero, List.nil_append]
  · simp only [List.take_zero, List.nil_append, List.length_append, List.length_map,
      List.length_drop, List.length_singleton]
    omega

theorem fileReader_readsAs : ReadsAs fileReader Eq := by
  rintro stream _ str num rfl hnum hroom
  constructor
  · intro hempty
    show fgets str num stream = _
    rw [fgets, if_pos hempty]
  · intro hfile
    obtain ⟨str', hstore, htext, hlength⟩ := @store_piece str (fgetsChunk (num - 1) stream).1
      (by have := length_fgetsChunk_le (num - 1) stream; omega)
    refine ⟨str', _, ?_, rfl, htext, hlength⟩
    show fgets str num stream = _
    rw [fgets, if_neg hfile, hstore]
    rfl

/-- The bytes that a string context has left. -/
structure Left (ctx : StringCtx) (file : Bytes) : Prop where
  bound : ctx.ptr + ctx.numLeft ≤ ctx.string.length
  bytes : slice ctx.string ctx.ptr ctx.numLeft = file

theorem Left.numLeft {ctx : StringCtx} {file : Bytes} (h : Left ctx file) :
    ctx.numLeft = file.length := by
  rw [← h.bytes, length_slice h.bound]

theorem Left.cons {ctx : StringCtx} {char : UInt8} {file : Bytes} (h : Left ctx (char :: file)) :
    readByte ctx.string ctx.ptr = .ok char ∧
      Left { ctx with ptr := ctx.ptr + 1, numLeft := ctx.numLeft - 1 } file := by
  have hleft : ctx.numLeft = file.length + 1 := h.numLeft
  have hbound := h.bound
  have hin : ctx.ptr < ctx.string.length := by omega
  have hsplit := h.bytes
  rw [hleft, Nat.add_comm, ← slice_append_slice, slice_one hin, List.singleton_append,
    List.cons.injEq] at hsplit
  refine ⟨?_, ?_, ?_⟩
  · rw [readByte_eq_ok hin, hsplit.1]
  · show ctx.ptr + 1 + (ctx.numLeft - 1) ≤ ctx.string.length
    omega
  · show slice ctx.string (ctx.ptr + 1) (ctx.numLeft - 1) = file
    rw [hleft, Nat.add_sub_cancel]
    exact hsplit.2

/-- The loop copies the piece that `fgets` would take behind what is there. -/
theorem readerStringLoop_spec {room : Nat} {str : Block} {strp : Nat} {ctx : StringCtx}
    {file copied : Bytes} (hleft : Left ctx file) (hroom : strp + room < str.length)
    (hcopied : str.take strp = copied.map some) :
    ∃ str' ctx', readerStringLoop room str strp ctx =
        .ok (str', strp + (fgetsChunk room file).1.length, ctx') ∧
      Left ctx' (fgetsChunk room file).2 ∧ str'.length = str.length ∧
      str'.take (strp + (fgetsChunk room file).1.length) =
        (copied ++ (fgetsChunk room file).1).map some := by
  induction room generalizing str strp ctx file copied with
  | zero => exact ⟨str, ctx, rfl, hleft, rfl, by rw [fgetsChunk, List.append_nil]; exact hcopied⟩
  | succ room ih =>
    cases file with
    | nil =>
      have hzero : ctx.numLeft = 0 := hleft.numLeft
      refine ⟨str, ctx, ?_, hleft, rfl, ?_⟩
      · rw [readerStringLoop, if_pos hzero]
        rfl
      · rw [fgetsChunk, List.append_nil]
        exact hcopied
    | cons char file =>
      obtain ⟨hread, hnext⟩ := hleft.cons
      have hnonzero : ctx.numLeft ≠ 0 := by
        rw [hleft.numLeft]
        exact Nat.succ_ne_zero _
      have hset : (str.set strp (some char)).take (strp + 1) = (copied ++ [char]).map some := by
        rw [List.take_succ_eq_append_getElem (by rw [List.length_set]; omega),
          List.take_set_of_le (Nat.le_refl _), hcopied, List.getElem_set_self, List.map_append]
        rfl
      rw [readerStringLoop, if_neg hnonzero, hread, ok_bind, store_singleton (by omega), ok_bind,
        fgetsChunk]
      by_cases hnewline : char = newline
      · rw [if_pos hnewline, if_pos hnewline]
        exact ⟨_, _, rfl, hnext, List.length_set, hset⟩
      · rw [if_neg hnewline, if_neg hnewline]
        obtain ⟨str', ctx', hloop, hleft', hlength, htake⟩ :=
          ih hnext (by rw [List.length_set]; omega) hset
        refine ⟨str', ctx', ?_, hleft', hlength.trans List.length_set, ?_⟩
        · rw [hloop, List.length_cons, Nat.add_assoc, Nat.add_comm 1]
        · rw [List.length_cons, ← Nat.add_assoc, Nat.add_right_comm, htake, List.append_assoc,
            List.singleton_append]

theorem stringReader_readsAs : ReadsAs stringReader Left := by
  intro ctx file str num hleft hnum hroom
  constructor
  · rintro rfl
    have hzero : ctx.numLeft = 0 := hleft.numLeft
    show iniReaderString str num ctx = _
    rw [iniReaderString, if_pos (Or.inl hzero)]
  · intro hfile
    have hready : ¬ (ctx.numLeft = 0 ∨ num < 2) := by
      rw [hleft.numLeft, List.length_eq_zero_iff]
      rintro (hnil | hshort)
      · exact hfile hnil
      · omega
    obtain ⟨str', ctx', hloop, hleft', hlength, htake⟩ := @readerStringLoop_spec (num - 1) str 0
      ctx file [] hleft (by omega) rfl
    have hchunk := length_fgetsChunk_le (num - 1) file
    rw [Nat.zero_add] at hloop htake
    rw [List.nil_append] at htake
    refine ⟨str'.set (fgetsChunk (num - 1) file).1.length (some 0), ctx', ?_, hleft', ?_, ?_⟩
    · show iniReaderString str num ctx = _
      rw [iniReaderString, if_neg hready, hloop, ok_bind]
      simp only [putNul_eq (by omega : (fgetsChunk (num - 1) file).1.length < str'.length), ok_bind,
        pure_eq_ok]
    · have hcells : (str'.set (fgetsChunk (num - 1) file).1.length (some 0)).drop 0 =
          ((fgetsChunk (num - 1) file).1 ++ [0]).map some ++
            str'.drop ((fgetsChunk (num - 1) file).1.length + 1) := by
        rw [List.drop_zero, List.set_eq_take_append_cons_drop, if_pos (by omega), htake,
          List.map_append, List.append_assoc]
        rfl
      exact textAt_cstr hcells
    · rw [List.length_set, hlength]

/-! ### Reading a line -/

section Stream

variable {σ υ : Type} {reader : IniReader σ} {rest : σ → Bytes → Prop}

theorem getLast_charAt {block : Block} {text : Bytes} (h : TextAt block 0 text) :
    charAt block (text.length - 1) = .ok (text.getLast?.getD 0) := by
  have hlast := (h.drop (Nat.sub_le text.length 1)).charAt
  rw [Nat.zero_add] at hlast
  rw [hlast, List.getLast?_eq_getElem?, List.head?_drop]

theorem endsLine_eq {abyss : Block} {text : Bytes} (h : TextAt abyss 0 text) :
    endsLine abyss text.length = .ok (text.getLast? = some newline) := by
  rw [endsLine]
  split
  · rename_i hpos
    obtain ⟨last, hlast⟩ : ∃ last, text.getLast? = some last := by
      rw [← Option.isSome_iff_exists, List.getLast?_isSome]
      exact List.ne_nil_of_length_pos hpos
    rw [getLast_charAt h, hlast, ok_bind]
    simp
  · rename_i hpos
    rw [List.eq_nil_of_length_eq_zero (by omega : text.length = 0)]
    rfl

theorem exceeds_eq {line : Block} {text : Bytes} (h : TextAt line 0 text) :
    exceeds line text.length = .ok (fills text) := by
  rw [exceeds, fills]
  split
  · rename_i hlength
    obtain ⟨last, hlast⟩ : ∃ last, text.getLast? = some last := by
      rw [← Option.isSome_iff_exists, List.getLast?_isSome]
      exact List.ne_nil_of_length_pos (by omega)
    rw [getLast_charAt h, hlast, ok_bind]
    simp [hlength]
  · rename_i hlength
    simp [hlength]

theorem discardLine_of_none {lineno error : Nat} {abyss : Block} {stream : σ}
    (h : reader.read abyss 16 stream = .ok none) :
    discardLine reader lineno error abyss stream = .ok (error, stream) := by
  unfold discardLine
  split
  · rename_i fault hread
    rw [h] at hread
    cases hread
  · rfl
  · rename_i abyss' stream' hread
    rw [h] at hread
    cases hread

theorem discardLine_of_some {lineno error : Nat} {abyss abyss' : Block} {stream stream' : σ}
    {text : Bytes} (h : reader.read abyss 16 stream = .ok (some (abyss', stream')))
    (htext : TextAt abyss' 0 text) :
    discardLine reader lineno error abyss stream =
      if text.getLast? = some newline then .ok (flagged error lineno, stream')
      else discardLine reader lineno (flagged error lineno) abyss' stream' := by
  rw [discardLine]
  split
  · rename_i fault hread
    rw [h] at hread
    cases hread
  · rename_i hread
    rw [h] at hread
    cases hread
  · rename_i abyss'' stream'' hread
    rw [h] at hread
    cases hread
    have hstring : stringAt 0 abyss' = .ok text := htext.stringAt
    rw [hstring, ok_bind, endsLine_eq htext, ok_bind]
    simp only [decide_eq_true_eq, pure_eq_ok]
    rfl

theorem flagged_flagged (error : Nat) {lineno : Nat} (h : 0 < lineno) :
    flagged (flagged error lineno) lineno = flagged error lineno := by
  by_cases herror : error = 0
  · simp only [flagged, herror, if_true, if_neg (Nat.ne_of_gt h)]
  · simp only [flagged, if_neg herror]

theorem discardLine_spec (hreader : ReadsAs reader rest) {lineno : Nat} (hlineno : 0 < lineno)
    (error : Nat) {abyss : Block} {stream : σ} {file : Bytes} (habyss : abyss.length = 16)
    (hrest : rest stream file) :
    ∃ stream', discardLine reader lineno error abyss stream =
        .ok (if file = [] then error else flagged error lineno, stream') ∧
      rest stream' (afterLong file) := by
  obtain ⟨hend, hmore⟩ := hreader hrest (by decide : 2 ≤ 16) (Nat.le_of_eq habyss.symm)
  by_cases hfile : file = []
  · subst hfile
    refine ⟨stream, ?_, ?_⟩
    · rw [discardLine_of_none (hend rfl), if_pos rfl]
    · rw [afterLong, dif_pos rfl]
      exact hrest
  · obtain ⟨abyss', stream', hread, hrest', htext, hlength⟩ := hmore hfile
    have hless := length_rest_of_piece hfile
    rw [discardLine_of_some hread htext, if_neg hfile, afterLong, dif_neg hfile]
    by_cases hnewline : (cstr (fgetsChunk 15 file).1).getLast? = some newline
    · rw [if_pos hnewline, if_pos hnewline]
      exact ⟨stream', rfl, hrest'⟩
    · rw [if_neg hnewline, if_neg hnewline]
      obtain ⟨stream'', hdiscard, hrest''⟩ := discardLine_spec hreader hlineno
        (flagged error lineno) (hlength.trans habyss) hrest'
      refine ⟨stream'', ?_, hrest''⟩
      rw [hdiscard, flagged_flagged error hlineno, ite_self]
termination_by file.length

theorem nextLine_of_nil (hreader : ReadsAs reader rest) {reading : Reading} {parser : Parser υ}
    (h : Reads reading parser) {stream : σ} (hrest : rest stream []) :
    nextLine reader parser stream = .ok none := by
  have hread := (hreader hrest (by decide : 2 ≤ 200) (Nat.le_of_eq h.lineLength.symm)).1 rfl
  rw [nextLine, hread]
  rfl

/-- The next line of the parser is the next raw line of the file. -/
theorem nextLine_spec (hreader : ReadsAs reader rest) {reading : Reading} {parser : Parser υ}
    (h : Reads reading parser) {stream : σ} {file : Bytes} (hrest : rest stream file)
    (hfile : file ≠ []) :
    ∃ raw file' parser' stream', rawLines file = raw :: rawLines file' ∧
      file'.length < file.length ∧ rest stream' file' ∧
      nextLine reader parser stream = .ok (some (parser', raw.text.length, stream')) ∧
      Reads reading parser' ∧ TextAt parser'.line 0 raw.text ∧
      parser'.lineno = parser.lineno + 1 ∧ parser'.user = parser.user ∧
      parser'.error =
        if raw.overlong then flagged parser.error (parser.lineno + 1) else parser.error := by
  obtain ⟨line, stream', hread, hrest', htext, hlength⟩ :=
    (hreader hrest (by decide : 2 ≤ 200) (Nat.le_of_eq h.lineLength.symm)).2 hfile
  have hless := length_rest_of_line hfile
  have hstring : stringAt 0 line = .ok (cstr (fgetsChunk 199 file).1) := htext.stringAt
  have hline : line.length = 200 := hlength.trans h.lineLength
  by_cases hfills : fills (cstr (fgetsChunk 199 file).1) = true
  · obtain ⟨stream'', hdiscard, hrest''⟩ := discardLine_spec hreader (Nat.succ_pos parser.lineno)
      parser.error (by rfl : (malloc 16).length = 16) hrest'
    refine ⟨⟨cstr (fgetsChunk 199 file).1, (fgetsChunk 199 file).2 ≠ []⟩,
      afterLong (fgetsChunk 199 file).2,
      { parser with
        line := line
        lineno := parser.lineno + 1
        error := if (fgetsChunk 199 file).2 = [] then parser.error
          else flagged parser.error (parser.lineno + 1) }, stream'', ?_, ?_, hrest'', ?_, ?_,
      htext, rfl, rfl, ?_⟩
    · rw [rawLines_eq hfile, if_pos hfills]
    · exact Nat.lt_of_le_of_lt (length_afterLong_le _) hless
    · rw [nextLine, hread]
      simp only [ok_bind, hstring, exceeds_eq htext, hfills, if_true, hdiscard, pure_eq_ok]
    · exact ⟨hline, h.sectionName, h.sectionLength, h.prevName, h.prevLength⟩
    · by_cases hnil : (fgetsChunk 199 file).2 = []
      · simp [hnil]
      · simp [hnil]
  · refine ⟨⟨cstr (fgetsChunk 199 file).1, false⟩, (fgetsChunk 199 file).2,
      { parser with line := line, lineno := parser.lineno + 1 }, stream', ?_, hless, hrest', ?_, ?_,
      htext, rfl, rfl, rfl⟩
    · rw [rawLines_eq hfile, if_neg hfills]
    · rw [nextLine, hread]
      simp only [ok_bind, hstring, exceeds_eq htext, hfills, Bool.false_eq_true, if_false, pure_eq_ok]
    · exact ⟨hline, h.sectionName, h.sectionLength, h.prevName, h.prevLength⟩

/-! ### All lines -/

variable (handler : IniHandler υ)

theorem parseLoop_of_none {parser : Parser υ} {stream : σ}
    (h : nextLine reader parser stream = .ok none) :
    parseLoop reader handler parser stream = .ok parser := by
  unfold parseLoop
  split
  · rename_i fault hnext
    rw [h] at hnext
    cases hnext
  · rfl
  · rename_i parser' offset stream' hnext
    rw [h] at hnext
    cases hnext

theorem parseLoop_of_some {parser parser' : Parser υ} {stream stream' : σ} {offset : Nat}
    (h : nextLine reader parser stream = .ok (some (parser', offset, stream'))) :
    parseLoop reader handler parser stream = (do
      let parser ← parseLine handler parser' offset
      parseLoop reader handler parser stream') := by
  rw [parseLoop]
  split
  · rename_i fault hnext
    rw [h] at hnext
    cases hnext
  · rename_i hnext
    rw [h] at hnext
    cases hnext
  · rename_i parser'' offset' stream'' hnext
    rw [h] at hnext
    cases hnext
    rfl

/-- What the caller of the loop takes from the parser. -/
def outcome (parser : Parser υ) : Exec (Nat × υ) := .ok (parser.error, parser.user)

theorem parseLoop_performs (hreader : ReadsAs reader rest) {reading : Reading} {parser : Parser υ}
    (h : Reads reading parser) {stream : σ} {file : Bytes} (hrest : rest stream file) :
    parseLoop reader handler parser stream >>= outcome =
      perform handler parser.error parser.user
        (eventsFrom reading parser.lineno (rawLines file)) := by
  by_cases hfile : file = []
  · subst hfile
    rw [parseLoop_of_none handler (nextLine_of_nil hreader h hrest), rawLines, dif_pos rfl]
    rfl
  obtain ⟨raw, file', parser', stream', hraw, hless, hrest', hnext, hreads, htext, hlineno, huser,
    herror⟩ := nextLine_spec hreader h hrest hfile
  obtain ⟨after, hafter, hsame, hline⟩ := parseLine_spec handler hreads htext
  rw [parseLoop_of_some handler hnext, hline, hraw, eventsFrom]
  simp only [List.map_append, perform_append]
  -- the mistake of a line that is too long comes before the events of its text
  have hlong : perform handler parser.error parser.user
      ((if raw.overlong then [none] else []).map fun event => (parser.lineno + 1, event)) =
      .ok (parser'.error, parser'.user) := by
    rw [herror, huser]
    split
    · rfl
    · rfl
  rw [hlong, ok_bind, hlineno]
  rcases perform handler parser'.error parser'.user _ with fault | ⟨error, user⟩
  · rfl
  · have hkept : Reads _ { after with error := error, user := user } :=
      ⟨hafter.lineLength, hafter.sectionName, hafter.sectionLength, hafter.prevName,
        hafter.prevLength⟩
    have hnextLoop := parseLoop_performs hreader hkept hrest'
    simp only [hsame, hlineno] at hnextLoop
    simp only [ok_bind, pure_eq_ok, hsame, hlineno]
    exact hnextLoop
termination_by file.length

/-- **The parser performs the events of what it reads**, with any reader that hands out
    bytes as `fgets` does. -/
theorem iniParseStream_performs (hreader : ReadsAs reader rest) {stream : σ} {file : Bytes}
    (hrest : rest stream file) (user : υ) :
    iniParseStream reader handler stream user = perform handler 0 user (events file) := by
  have hempty : TextAt (List.replicate 50 (some 0)) 0 [] :=
    ⟨List.prefix_append [some 0] (List.replicate 49 (some 0)), List.not_mem_nil⟩
  exact parseLoop_performs handler hreader
    ⟨List.length_replicate, hempty, List.length_replicate, hempty, List.length_replicate⟩ hrest

end Stream

/-- **The parser performs the events of its file.**  Whatever the bytes of the file, the
    parser stays inside its buffers and reads no byte that was not written: it hands
    exactly the settings of the file to the handler, in order, and returns the first
    line with a mistake. -/
theorem iniParseFile_performs {υ : Type} (handler : IniHandler υ) (file : Bytes) (user : υ) :
    iniParseFile handler file user = perform handler 0 user (events file) :=
  iniParseStream_performs handler fileReader_readsAs rfl user

/-- `ini_parse` returns -1 for a file that cannot be opened, and otherwise what the parser
    of the open file returns, which is not negative. -/
theorem iniParse_performs {υ : Type} (handler : IniHandler υ) (file : Option Bytes) (user : υ) :
    iniParse handler file user =
      match file with
      | none => .ok (-1, user)
      | some file => do
          let (error, user) ← perform handler 0 user (events file)
          return ((error : Int), user) := by
  cases file with
  | none => rfl
  | some file =>
    rw [iniParse, iniParseFile, iniParseStream_performs handler fileReader_readsAs rfl]

theorem iniParseStringLength_performs {υ : Type} (handler : IniHandler υ) {string : Bytes}
    {length : Nat} (h : length ≤ string.length) (user : υ) :
    iniParseStringLength handler string length user =
      perform handler 0 user (events (string.take length)) := by
  have hleft : Left ⟨string, 0, length⟩ (string.take length) :=
    ⟨by rw [Nat.zero_add]; exact h, by rw [slice, List.drop_zero]⟩
  exact iniParseStream_performs handler stringReader_readsAs hleft user

theorem iniParseString_performs {υ : Type} (handler : IniHandler υ) (string : CString) (user : υ) :
    iniParseString handler string user = perform handler 0 user (events string.chars) := by
  have hwhole := iniParseStringLength_performs handler (Nat.le_refl string.chars.length) user
  rw [List.take_length] at hwhole
  exact hwhole

/-- **A string is parsed as the file with its bytes**, with a length given or up to the
    NUL that ends it. -/
theorem iniParseStringLength_eq_file {υ : Type} (handler : IniHandler υ) {string : Bytes}
    {length : Nat} (h : length ≤ string.length) (user : υ) :
    iniParseStringLength handler string length user =
        iniParseFile handler (string.take length) user ∧
      ∀ text : CString, iniParseString handler text user = iniParseFile handler text.chars user := by
  constructor
  · rw [iniParseStringLength_performs handler h, iniParseFile,
      iniParseStream_performs handler fileReader_readsAs rfl]
  · intro text
    rw [iniParseString_performs, iniParseFile, iniParseStream_performs handler fileReader_readsAs rfl]

theorem iniParseStringLength_first_line :
    iniParseStringLength (fun count _ _ _ => .ok (1, count + 1)) (ascii "a=1\nb=2\n") 4 0 =
      iniParseFile (fun count _ _ _ => .ok (1, count + 1)) (ascii "a=1\n") 0 :=
  (iniParseStringLength_eq_file _ (by decide) 0).1

end Cdht.IniRefinement
