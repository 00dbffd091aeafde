import ProblemBoard.Text.Blank
import ProblemBoard.Text.Lines

/-!
# Lines as they are written

A program writes each line with an end of its own, a line feed alone or one behind a carriage
return.  Reading gives the lines back, `lineChars_written`, but a carriage return at the end of a
line is lost where the line is ended by a line feed alone.  Texts that end with a line feed each
have one more line than line feeds in front of it, `length_lines_feed`, and texts joined keep their
lines, `lines_join`.
-/

namespace ProblemBoard.Text

/-- How a line may end. -/
inductive LineEnd where
  | feed
  /-- A carriage return and a line feed. -/
  | returnFeed
  deriving DecidableEq, Repr

/-- The characters at the end of a line. -/
def LineEnd.chars : LineEnd → List Char
  | .feed => ['\n']
  | .returnFeed => ['\r', '\n']

/-- A line and how it ends. -/
structure WrittenLine where
  chars : List Char
  /-- How it ends. -/
  stop : LineEnd
  oneLine : '\n' ∉ chars

/-- Lines as they are written one after another. -/
def written (ls : List WrittenLine) : List Char := ls.flatMap fun l => l.chars ++ l.stop.chars

/-- A line as it is read. -/
def WrittenLine.seen (l : WrittenLine) : List Char :=
  match l.stop with
  | .feed => dropReturn l.chars
  | .returnFeed => l.chars

/-- The next line ends at the first line feed. -/
theorem lineCharsFrom_append {line : List Char} (h : '\n' ∉ line) (acc rest : List Char) :
    lineCharsFrom acc (line ++ '\n' :: rest) =
      dropReturn (acc.reverse ++ line) :: lineChars rest := by
  induction line generalizing acc with
  | nil => simp [lineCharsFrom, lineChars]
  | cons c cs ih =>
    rw [List.mem_cons, not_or] at h
    rw [List.cons_append, lineCharsFrom, if_neg (Ne.symm h.1), ih h.2]
    simp

theorem WrittenLine.lineChars_append (l : WrittenLine) (rest : List Char) :
    lineChars (l.chars ++ l.stop.chars ++ rest) = l.seen :: lineChars rest := by
  obtain ⟨line, stop, h⟩ := l
  cases stop with
  | feed =>
    rw [List.append_assoc]
    exact lineCharsFrom_append h [] rest
  | returnFeed =>
    have hr : '\n' ∉ line ++ ['\r'] := by simp [h]
    have hline : line ++ LineEnd.returnFeed.chars ++ rest = line ++ ['\r'] ++ '\n' :: rest := by
      simp [LineEnd.chars]
    rw [hline, lineChars, lineCharsFrom_append hr]
    simp [WrittenLine.seen, dropReturn]

/-- What was written is read line by line. -/
theorem lineChars_written (ls : List WrittenLine) :
    lineChars (written ls) = ls.map WrittenLine.seen := by
  induction ls with
  | nil => rfl
  | cons l ls ih =>
    show lineChars (l.chars ++ l.stop.chars ++ written ls) = _
    rw [l.lineChars_append, ih, List.map_cons]

/-- The end of a line is not part of it. -/
theorem feed_not_mem_lineChars {cs line : List Char} (h : line ∈ lineChars cs) : '\n' ∉ line := by
  have hdrop : ∀ line : List Char, '\n' ∉ line → '\n' ∉ dropReturn line := by
    intro line hline
    unfold dropReturn
    split
    · exact fun hmem => hline (List.dropLast_subset _ hmem)
    · exact hline
  have hfrom : ∀ acc : List Char, '\n' ∉ acc → line ∈ lineCharsFrom acc cs → '\n' ∉ line := by
    clear h
    induction cs with
    | nil =>
      intro acc hacc h
      unfold lineCharsFrom at h
      split at h
      · cases h
      · obtain rfl := List.mem_singleton.1 h
        simpa using hacc
    | cons c cs ih =>
      intro acc hacc h
      unfold lineCharsFrom at h
      split at h
      · rcases List.mem_cons.1 h with rfl | h
        · exact hdrop _ (by simpa using hacc)
        · exact ih [] List.not_mem_nil h
      · next hc => exact ih (c :: acc) (by simp [hacc, Ne.symm hc]) h
  exact hfrom [] List.not_mem_nil h

theorem dropReturn_of_ne {line : List Char} (h : line.getLast? ≠ some '\r') :
    dropReturn line = line :=
  if_neg h

theorem WrittenLine.seen_of_ne {l : WrittenLine} (h : l.chars.getLast? ≠ some '\r') :
    l.seen = l.chars := by
  unfold seen
  split
  · exact dropReturn_of_ne h
  · rfl

/-- A blank line is read as a blank line. -/
theorem WrittenLine.allBlank_seen {l : WrittenLine} (h : allBlank l.chars = true) :
    allBlank l.seen = true := by
  unfold seen dropReturn
  split
  · split
    · exact List.all_eq_true.2 fun c hc =>
        List.all_eq_true.1 h c (List.dropLast_subset _ hc)
    · exact h
  · exact h

/-! ## Texts that end with a line feed -/

/-- Behind a line feed the lines start anew. -/
theorem lineCharsFrom_append_feed (acc front rest : List Char) :
    lineCharsFrom acc (front ++ '\n' :: rest) =
      lineCharsFrom acc (front ++ ['\n']) ++ lineChars rest := by
  induction front generalizing acc with
  | nil => simp [lineCharsFrom, lineChars]
  | cons c front ih =>
    simp only [List.cons_append, lineCharsFrom]
    split
    · rw [ih, List.cons_append]
    · exact ih _

theorem length_lineCharsFrom_feed (acc front : List Char) :
    (lineCharsFrom acc (front ++ ['\n'])).length = front.count '\n' + 1 := by
  induction front generalizing acc with
  | nil => simp [lineCharsFrom]
  | cons c front ih =>
    simp only [List.cons_append, lineCharsFrom]
    split
    · next hc => rw [hc, List.length_cons, ih, List.count_cons_self]
    · next hc => rw [ih, List.count_cons_of_ne hc]

theorem length_lines_feed (s : String) :
    (lines (s ++ "\n")).length = s.toList.count '\n' + 1 := by
  rw [lines, List.length_map, String.toList_append]
  exact length_lineCharsFrom_feed [] s.toList

/-- A text without line feeds is a line, if it does not end with a carriage return. -/
theorem lines_feed {s : String} (h : '\n' ∉ s.toList) (hlast : s.toList.getLast? ≠ some '\r') :
    lines (s ++ "\n") = [s] := by
  have hline : lineChars (s.toList ++ ['\n']) = [s.toList] := by
    rw [lineChars, lineCharsFrom_append h]
    exact congrArg (· :: []) (dropReturn_of_ne hlast)
  have hchars : (s ++ "\n").toList = s.toList ++ ['\n'] := String.toList_append
  rw [lines, hchars, hline, List.map_singleton, String.ofList_toList]

/-- Texts that end with line feeds keep their lines when they are joined. -/
theorem lines_join {chunks : List String} (h : ∀ c ∈ chunks, ∃ line : String, c = line ++ "\n") :
    lines (String.join chunks) = chunks.flatMap lines := by
  induction chunks with
  | nil => rfl
  | cons c chunks ih =>
    obtain ⟨line, rfl⟩ := h c (.head _)
    have hchars : (String.join ((line ++ "\n") :: chunks)).toList =
        line.toList ++ '\n' :: (String.join chunks).toList := by
      simp
    have hfirst : (line ++ "\n").toList = line.toList ++ ['\n'] := String.toList_append
    rw [List.flatMap_cons, ← ih fun d hd => h d (.tail _ hd), lines, hchars, lineChars,
      lineCharsFrom_append_feed, List.map_append, lines, hfirst]
    rfl

theorem firstLine_eq (s : String) : firstLine s = (lines s).headD "" := by
  unfold firstLine lines
  cases lineChars s.toList <;> rfl

theorem feed_not_mem_firstLine (s : String) : '\n' ∉ (firstLine s).toList := by
  rw [firstLine, String.toList_ofList]
  cases hlines : lineChars s.toList with
  | nil => exact List.not_mem_nil
  | cons line rest =>
    have hline : line ∈ lineChars s.toList := hlines ▸ .head _
    exact feed_not_mem_lineChars hline

end ProblemBoard.Text
