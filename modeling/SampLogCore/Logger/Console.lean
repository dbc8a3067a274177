import Mathlib.Data.List.Infix
import SampLogCore.Levels
import SampLogCore.Lib.Emitting
import SampLogCore.Lib.FormatString

/-!
# Console output

`Logger::PrintLogString` prints a line to the console, in colours or without. Without colours the
time, the module name, the level and the message are arguments of one format string. With colours
each of the first three is printed by a call `fmt::print(style, s)` of its own, in which it is the
format string itself. So the two agree exactly when the time and the module name have no braces
(`console_agrees_iff`).

What is printed is a list of pieces: text, and the escape sequences that `fmt` puts around it.
-/

namespace SampLogCore.Logger.Console

open SampLogCore.Levels SampLogCore.Lib.Emitting SampLogCore.Lib.FormatString

/-- `fmt::rgb`, with the names of `fmt::color`. -/
inductive Color
  | rgb (r g b : UInt8)
  | green
  | royal_blue
  | orange
  | red
  | white_smoke
  | white
  | sandy_brown
  deriving DecidableEq

/-- An escape sequence. -/
inductive Escape
  | foreground (color : Color)
  | background (color : Color)
  | reset
  deriving DecidableEq

/-- What is printed. -/
inductive Piece
  | text (s : List Char)
  | escape (e : Escape)
  deriving DecidableEq

/-- `fmt::text_style`: the escape sequences in front of a text. -/
abbrev TextStyle := List Escape

/-- `fmt::fg`. -/
def fg (color : Color) : TextStyle := [.foreground color]

/-- `fmt::bg`. -/
def bg (color : Color) : TextStyle := [.background color]

/-- Code that prints. -/
abbrev Print := Emit Piece FormatError

/-- `fmt::print(format_str, args…)`. -/
def print (format_str : List Char) (args : List Arg) : Print Unit := do
  let s ← liftExcept (format format_str args)
  emit (.text s)

/-- `fmt::print(style, format_str)`. -/
def printStyled (style : TextStyle) (format_str : List Char) : Print Unit := do
  each (fun e => emit (.escape e)) style
  print format_str []
  emit (.escape .reset)

/-- `utils::GetLogLevelAsString`. -/
def GetLogLevelAsString (level : LogLevel) : List Char :=
  if level = DEBUG then ['D', 'E', 'B', 'U', 'G']
  else if level = INFO then ['I', 'N', 'F', 'O']
  else if level = WARNING then ['W', 'A', 'R', 'N', 'I', 'N', 'G']
  else if level = ERROR then ['E', 'R', 'R', 'O', 'R']
  else if level = FATAL then ['F', 'A', 'T', 'A', 'L']
  else if level = VERBOSE then ['V', 'E', 'R', 'B', 'O', 'S', 'E']
  else ['<', 'u', 'n', 'k', 'n', 'o', 'w', 'n', '>']

/-- `utils::GetLogLevelColor`. -/
def GetLogLevelColor (level : LogLevel) : Color :=
  if level = DEBUG then .green
  else if level = INFO then .royal_blue
  else if level = WARNING then .orange
  else if level = ERROR then .red
  else if level = FATAL then .red
  else if level = VERBOSE then .white_smoke
  else .white

/-- `Logger::PrintLogString`, for a logger with this module name. -/
def PrintLogString (EnableColors : Bool) (module_name time : List Char) (level : LogLevel)
    (message : List Char) : Print Unit :=
  let loglevel_str := GetLogLevelAsString level
  if EnableColors then do
    print ['['] []
    printStyled (fg (.rgb 255 255 150)) time
    print [']', ' ', '['] []
    printStyled (fg .sandy_brown) module_name
    print [']', ' ', '['] []
    let loglevel_color := GetLogLevelColor level
    printStyled (if level = FATAL then fg .white ++ bg loglevel_color else fg loglevel_color)
      loglevel_str
    print [']', ' ', '{', ':', 's', '}', '\n'] [str message]
  else
    print ['[', '{', ':', 's', '}', ']', ' ', '[', '{', ':', 's', '}', ']', ' ',
      '[', '{', ':', 's', '}', ']', ' ', '{', ':', 's', '}', '\n']
      [str time, str module_name, str loglevel_str, str message]

/-- What is left of the output without the escape sequences. -/
def plainText (pieces : List Piece) : List Char :=
  pieces.flatMap fun
    | .text s => s
    | .escape _ => []

/-- `Api::CreateLogger`: the module name of the logger it creates, if it creates one. -/
def CreateLogger (module_name : List Char) : Option (List Char) :=
  if ['l', 'o', 'g', '-', 'c', 'o', 'r', 'e'] <:+: module_name then none else some module_name

/-- Neither mode throws, and both print the same text. -/
def Agrees (module_name time : List Char) (level : LogLevel) (message : List Char) : Prop :=
  let coloured := PrintLogString true module_name time level message
  let plain := PrintLogString false module_name time level message
  ¬ Throws coloured ∧ ¬ Throws plain ∧ plainText coloured.events = plainText plain.events

/-! ### What is printed -/

/-- The code prints this text and does not throw. -/
def Prints (x : Print Unit) (t : List Char) : Prop :=
  x.result = .ok () ∧ plainText x.events = t

variable {x y : Print Unit} {s t u : List Char} {args : List Arg} {style : TextStyle}
  {module_name time message : List Char} {level : LogLevel}

theorem Prints.not_throws (h : Prints x t) : ¬ Throws x := not_throws_iff.mpr ⟨(), h.1⟩

theorem Prints.seq (hx : Prints x t) (hy : Prints y u) : Prints (x >>= fun _ => y) (t ++ u) := by
  rw [bind_of_ok hx.1]
  refine ⟨hy.1, ?_⟩
  rw [← hx.2, ← hy.2]
  simp [plainText]

theorem prints_print (h : format s args = .ok t) : Prints (print s args) t := by
  simp [print, h, Prints, plainText, emit]

theorem prints_escape (e : Escape) : Prints (emit (.escape e)) [] := ⟨rfl, rfl⟩

theorem prints_escapes : ∀ style : TextStyle, Prints (each (fun e => emit (.escape e)) style) []
  | [] => ⟨rfl, rfl⟩
  | e :: style => (prints_escape e).seq (prints_escapes style)

/-- The escape sequences do not count. -/
theorem prints_printStyled (h : format s [] = .ok t) : Prints (printStyled style s) t := by
  have hseq := (prints_escapes style).seq ((prints_print h).seq (prints_escape .reset))
  simpa [printStyled] using hseq

theorem throws_print {e : FormatError} (h : format s args = .error e) :
    Throws (print s args) := by
  simp [print, h]

theorem throws_printStyled {e : FormatError} (h : format s [] = .error e) :
    Throws (printStyled style s) := by
  rw [printStyled, throws_seq, throws_seq]
  exact .inr (.inl (throws_print h))

/-- The names of the levels have no braces. -/
theorem format_level (level : LogLevel) :
    format (GetLogLevelAsString level) [] = .ok (GetLogLevelAsString level) := by
  rw [GetLogLevelAsString]
  split_ifs <;> rfl

/-- What the line looks like. -/
def line (time module_name : List Char) (level : LogLevel) (message : List Char) : List Char :=
  ['['] ++ (time ++ ([']', ' ', '['] ++ (module_name ++ ([']', ' ', '['] ++
    (GetLogLevelAsString level ++ ([']', ' '] ++ message ++ ['\n']))))))

theorem prints_plain (module_name time : List Char) (level : LogLevel) (message : List Char) :
    Prints (PrintLogString false module_name time level message)
      (line time module_name level message) := by
  refine prints_print ?_
  simp [format, vformat, field, str, line, Except.map]

/-- In colours the format strings that time and module name are count. -/
theorem prints_coloured (htime : format time [] = .ok t) (hmodule : format module_name [] = .ok u) :
    Prints (PrintLogString true module_name time level message) (line t u level message) := by
  have hmessage : format [']', ' ', '{', ':', 's', '}', '\n'] [str message] =
      .ok ([']', ' '] ++ message ++ ['\n']) := by
    simp [format, vformat, field, str, Except.map]
  exact (prints_print rfl).seq ((prints_printStyled htime).seq ((prints_print rfl).seq
    ((prints_printStyled hmodule).seq ((prints_print rfl).seq
      ((prints_printStyled (format_level level)).seq (prints_print hmessage))))))

/-- A coloured line that does not throw. -/
theorem format_of_not_throws (h : ¬ Throws (PrintLogString true module_name time level message)) :
    (∃ t, format time [] = .ok t) ∧ ∃ u, format module_name [] = .ok u := by
  simp only [PrintLogString, if_true, throws_seq, not_or] at h
  obtain ⟨-, htime, -, hmodule, -⟩ := h
  constructor
  · cases hf : format time [] with
    | ok t => exact ⟨t, rfl⟩
    | error e => exact absurd (throws_printStyled hf) htime
  · cases hf : format module_name [] with
    | ok u => exact ⟨u, rfl⟩
    | error e => exact absurd (throws_printStyled hf) hmodule

/-- **When the two modes agree**: when time and module name have no braces. -/
theorem console_agrees_iff (module_name time : List Char) (level : LogLevel)
    (message : List Char) :
    Agrees module_name time level message ↔
      (∀ c ∈ time, ¬ IsBrace c) ∧ ∀ c ∈ module_name, ¬ IsBrace c := by
  have hplain := prints_plain module_name time level message
  constructor
  · rintro ⟨hcoloured, -, heq⟩
    obtain ⟨⟨t, ht⟩, u, hu⟩ := format_of_not_throws hcoloured
    rw [(prints_coloured ht hu).2, hplain.2] at heq
    have ht := format_nil_iff.mp ht
    have hu := format_nil_iff.mp hu
    -- no part is longer than what it stands for, so each has its length
    have hlen := congrArg List.length heq
    have htlen := ht.length_le
    have hulen := hu.length_le
    simp only [line, List.length_append] at hlen
    exact ⟨(ht.eq_of_length (by omega)).2, (hu.eq_of_length (by omega)).2⟩
  · rintro ⟨htime, hmodule⟩
    have hcoloured := @prints_coloured time module_name module_name time message level
      (format_eq_self_iff.mpr htime) (format_eq_self_iff.mpr hmodule)
    exact ⟨hcoloured.not_throws, hplain.not_throws, hcoloured.2.trans hplain.2.symm⟩

/-- A module name with braces. -/
theorem not_agrees_braces :
    CreateLogger ['{', 'a', '}'] = some ['{', 'a', '}'] ∧
      ¬ Agrees ['{', 'a', '}'] ['1', '2', ':', '0', '0'] INFO [] := by
  refine ⟨by decide, fun h => h.1 ?_⟩
  exact ⟨.format_error, rfl⟩

end SampLogCore.Logger.Console
