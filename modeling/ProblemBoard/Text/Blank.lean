/-!
# Blank characters

The white space of the Unicode standard, and what is cut at it: trimming a text at
both ends and splitting it into words.  `trimChars_indented` says that trimming takes the
indent off a text, and `trimChars_eq_nil_iff` when it leaves nothing.
-/

namespace ProblemBoard.Text

/-- The Unicode property `White_Space`. -/
def isBlank (c : Char) : Bool :=
  let n := c.toNat
  (9 ≤ n && n ≤ 13) || n = 0x20 || n = 0x85 || n = 0xa0 || n = 0x1680 ||
    (0x2000 ≤ n && n ≤ 0x200a) || n = 0x2028 || n = 0x2029 || n = 0x202f ||
    n = 0x205f || n = 0x3000

/-- Characters without the blanks at their start. -/
def trimStart (cs : List Char) : List Char := cs.dropWhile isBlank

def trimEnd (cs : List Char) : List Char := (cs.reverse.dropWhile isBlank).reverse

/-- Characters without the blanks at either end. -/
def trimChars (cs : List Char) : List Char := trimEnd (trimStart cs)

/-- A text that starts and ends with characters that are not blank, if it is not empty. -/
structure Trimmed (cs : List Char) : Prop where
  head : cs.head?.any isBlank = false
  last : cs.getLast?.any isBlank = false

instance (cs : List Char) : Decidable (Trimmed cs) :=
  decidable_of_iff (cs.head?.any isBlank = false ∧ cs.getLast?.any isBlank = false)
    ⟨fun h => ⟨h.1, h.2⟩, fun h => ⟨h.head, h.last⟩⟩

theorem trimStart_of_head {cs : List Char} (h : cs.head?.any isBlank = false) :
    trimStart cs = cs := by
  cases cs with
  | nil => rfl
  | cons c cs => exact List.dropWhile_cons_of_neg (Bool.eq_false_iff.1 h)

theorem Trimmed.trimChars_eq {cs : List Char} (h : Trimmed cs) : trimChars cs = cs := by
  have hlast : cs.reverse.head?.any isBlank = false := by
    rw [List.head?_reverse]
    exact h.last
  have hend : trimStart cs.reverse = cs.reverse := trimStart_of_head hlast
  rw [trimChars, trimStart_of_head h.head, trimEnd]
  exact (congrArg List.reverse hend).trans cs.reverse_reverse

theorem trimChars_subset (cs : List Char) : trimChars cs ⊆ cs := by
  intro c hc
  rw [trimChars, trimEnd, List.mem_reverse] at hc
  exact List.dropWhile_subset _ (List.mem_reverse.1 (List.dropWhile_subset _ hc))

def trim (s : String) : String := String.ofList (trimChars s.toList)

/-- Whether a text holds blanks only. -/
def allBlank (cs : List Char) : Bool := cs.all isBlank

theorem trimChars_indented {indent cs : List Char} (hi : allBlank indent = true)
    (h : Trimmed cs) : trimChars (indent ++ cs) = cs := by
  have hstart : trimStart (indent ++ cs) = trimStart cs :=
    List.dropWhile_append_of_pos (List.all_eq_true.1 hi)
  rw [trimChars, hstart]
  exact h.trimChars_eq

/-- Trimming leaves a character that is not blank if the text holds one. -/
theorem any_trimChars (cs : List Char) :
    ((trimChars cs).any fun c => !isBlank c) = !allBlank cs := by
  rw [trimChars, trimEnd, List.any_reverse, List.any_dropWhile, List.all_reverse,
    List.not_all_eq_any_not, trimStart, List.any_dropWhile, allBlank]

/-- Nothing is left of a text that holds blanks only. -/
theorem trimChars_eq_nil_iff {cs : List Char} : trimChars cs = [] ↔ allBlank cs = true := by
  constructor
  · intro h
    simpa [h] using (any_trimChars cs).symm
  · intro h
    have hdrop : (cs ++ []).dropWhile isBlank = [].dropWhile isBlank :=
      List.dropWhile_append_of_pos (List.all_eq_true.1 h)
    have hstart : trimStart cs = [] := by simpa [trimStart] using hdrop
    simp [trimChars, trimEnd, hstart]

/-- The longest runs of characters that are not blank, in order. -/
def wordChars : List Char → List (List Char)
  | [] => []
  | c :: cs =>
      if isBlank c then wordChars cs
      else
        match cs with
        | [] => [[c]]
        | d :: _ =>
            if isBlank d then [c] :: wordChars cs
            else
              match wordChars cs with
              | [] => [[c]]
              | w :: ws => (c :: w) :: ws

/-- The words of a text: what stands between blanks. -/
def words (s : String) : List String := (wordChars s.toList).map String.ofList

/-- ASCII letters in lower case, everything else unchanged. -/
def lower (s : String) : String := String.ofList (s.toList.map Char.toLower)

end ProblemBoard.Text
