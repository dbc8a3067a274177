import SampLogCore.Lib.Fields

/-!
# Files of lines

Lines are written with a newline behind each (`unlines`), and a file is read as what stands in front
of its newlines (`lines`). They come back exactly when none of them has a newline of its own
(`lines_unlines_iff`).

A line may have a head of two fields in brackets, `[a] [b] text`. It is read back when neither field
has the closing bracket (`Line.read_write`), and a file of such lines exactly when no text has a
newline (`readLines_iff`).
-/

namespace SampLogCore.Lib.Lines

open SampLogCore.Lib.Fields

/-- The lines, each with a newline behind it. -/
def unlines (ls : List (List Char)) : List Char := ls.flatMap (· ++ ['\n'])

/-- What stands in front of the newlines. -/
def lines (s : List Char) : List (List Char) := (s.splitOn '\n').dropLast

theorem unlines_append (ls ms : List (List Char)) : unlines (ls ++ ms) = unlines ls ++ unlines ms :=
  List.flatMap_append

theorem lines_unlines {ls : List (List Char)} (h : ∀ l ∈ ls, '\n' ∉ l) :
    lines (unlines ls) = ls := by
  have hsplit : (unlines ls).splitOn '\n' = ls ++ [[]] := by
    induction ls with
    | nil => rfl
    | cons l ls ih =>
      obtain ⟨hl, hls⟩ := List.forall_mem_cons.mp h
      have hcons : unlines (l :: ls) = l ++ '\n' :: unlines ls := by simp [unlines]
      rw [hcons, List.splitOn_append_cons_self_of_not_mem hl, ih hls, List.cons_append]
  rw [lines, hsplit, List.dropLast_concat]

/-- **Lines come back exactly when they are lines.** -/
theorem lines_unlines_iff {ls : List (List Char)} :
    lines (unlines ls) = ls ↔ ∀ l ∈ ls, '\n' ∉ l := by
  refine ⟨fun h l hl => ?_, lines_unlines⟩
  rw [← h] at hl
  exact notMem_of_mem_splitOn l ((List.dropLast_sublist _).subset hl)

/-! ### Heads -/

/-- A line with a head of two fields. -/
@[ext] structure Line where
  first : List Char
  second : List Char
  text : List Char
  deriving DecidableEq

namespace Line

/-- The line as it is written. -/
def write (l : Line) : List Char :=
  '[' :: l.first ++ [']', ' ', '['] ++ l.second ++ [']', ' '] ++ l.text

/-- The line that is written so. -/
def read : List Char → Option Line
  | '[' :: s =>
    match s.dropWhile (· ≠ ']') with
    | ']' :: ' ' :: '[' :: t =>
      match t.dropWhile (· ≠ ']') with
      | ']' :: ' ' :: text => some ⟨s.takeWhile (· ≠ ']'), t.takeWhile (· ≠ ']'), text⟩
      | _ => none
    | _ => none
  | _ => none

/-- The fields of the head end at their brackets. -/
structure Plain (l : Line) : Prop where
  first : ']' ∉ l.first
  second : ']' ∉ l.second
  line_first : '\n' ∉ l.first
  line_second : '\n' ∉ l.second

theorem read_write {l : Line} (h : l.Plain) : read l.write = some l := by
  obtain ⟨first, second, text⟩ := l
  have hfirst : ']' ∉ first := h.first
  have hsecond : ']' ∉ second := h.second
  have hwrite : (Line.mk first second text).write =
      '[' :: (first ++ ']' :: ' ' :: '[' :: (second ++ ']' :: ' ' :: text)) := by
    simp [write]
  rw [hwrite]
  simp only [read, dropWhile_ne_append hfirst, takeWhile_ne_append hfirst,
    dropWhile_ne_append hsecond, takeWhile_ne_append hsecond]

theorem notMem_write_iff {l : Line} (h : l.Plain) : '\n' ∉ l.write ↔ '\n' ∉ l.text := by
  have hfirst := h.line_first
  have hsecond := h.line_second
  simp [write, hfirst, hsecond]

/-- A line that is read has what is written of it. -/
theorem write_read {s : List Char} {l : Line} (h : read s = some l) : s = l.write := by
  unfold read at h
  split at h
  · next s =>
    split at h
    · next t ht =>
      split at h
      · next text htext =>
        obtain rfl := Option.some.inj h
        have hs := List.takeWhile_append_dropWhile (p := (· ≠ ']')) (l := s)
        have ht' := List.takeWhile_append_dropWhile (p := (· ≠ ']')) (l := t)
        rw [htext] at ht'
        rw [ht, ← ht'] at hs
        calc '[' :: s = '[' :: (s.takeWhile (· ≠ ']') ++ ']' :: ' ' :: '[' ::
              (t.takeWhile (· ≠ ']') ++ ']' :: ' ' :: text)) := congrArg _ hs.symm
          _ = write ⟨s.takeWhile (· ≠ ']'), t.takeWhile (· ≠ ']'), text⟩ := by simp [write]
      · simp at h
    · simp at h
  · simp at h

end Line

/-- A file of lines with heads. -/
def readLines (s : List Char) : Option (List Line) := (lines s).mapM Line.read

theorem mapM_read_write {ls : List Line} (h : ∀ l ∈ ls, l.Plain) :
    (ls.map Line.write).mapM Line.read = some ls := by
  induction ls with
  | nil => rfl
  | cons l ls ih =>
    obtain ⟨hl, hls⟩ := List.forall_mem_cons.mp h
    rw [List.map_cons, List.mapM_cons, Line.read_write hl, ih hls]
    rfl

theorem map_write_of_mapM : ∀ {ss : List (List Char)} {ls : List Line},
    ss.mapM Line.read = some ls → ls.map Line.write = ss
  | [], ls, h => by
    simp only [List.mapM_nil, Option.pure_def, Option.some.injEq] at h
    simp [← h]
  | s :: ss, ls, h => by
    simp only [List.mapM_cons, Option.bind_eq_bind, Option.pure_def, Option.bind_eq_some_iff,
      Option.some.injEq] at h
    obtain ⟨l, hl, ls, hls, rfl⟩ := h
    rw [List.map_cons, map_write_of_mapM hls, ← Line.write_read hl]

/-- **A file of lines with plain heads is read back exactly when no text has a newline.** -/
theorem readLines_iff {ls : List Line} (h : ∀ l ∈ ls, l.Plain) :
    readLines (unlines (ls.map Line.write)) = some ls ↔ ∀ l ∈ ls, '\n' ∉ l.text := by
  constructor
  · intro hread l hl
    have hlines := map_write_of_mapM hread
    have hall := lines_unlines_iff.mp hlines.symm
    exact (Line.notMem_write_iff (h l hl)).mp (hall _ (List.mem_map.mpr ⟨l, hl, rfl⟩))
  · intro htext
    have hall : ∀ s ∈ ls.map Line.write, '\n' ∉ s := by
      intro s hs
      obtain ⟨l, hl, rfl⟩ := List.mem_map.mp hs
      exact (Line.notMem_write_iff (h l hl)).mpr (htext l hl)
    rw [readLines, lines_unlines hall, mapM_read_write h]

end SampLogCore.Lib.Lines
