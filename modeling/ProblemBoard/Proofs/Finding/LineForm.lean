import ProblemBoard.Finding.CompilerText

/-!
# The form of a line

`headline?_eq_some_iff` and `located?_eq_some_iff` say which texts have the form of a headline and
of a location.  A *mark* is the part of a location that is always written alike, from the
parenthesis up to the message.  A text is *marked* if a mark stands anywhere in it.

A mark has no parenthesis but the first one, so two marks never overlap.  That is why the file
name in front of a location is found, whatever its message says, as soon as the name itself is
not marked behind its first character.
-/

namespace ProblemBoard.CompilerText

open ProblemBoard.Text

/-! ## Parts of a line -/

theorem afterText_eq_some_iff {t cs rest : List Char} :
    afterText t cs = some rest ↔ cs = t ++ rest := by
  induction t generalizing cs with
  | nil => simp [afterText]
  | cons d ds ih =>
    cases cs with
    | nil => simp [afterText]
    | cons c cs =>
      unfold afterText
      split
      · next h => simp [ih, h]
      · next h => simp [Ne.symm h]

theorem takeDigits_append {ds rest : List Char} (hd : IsNumeral ds)
    (hr : rest.head?.any isDigit = false) : takeDigits (ds ++ rest) = some (ds, rest) := by
  have htake : rest.takeWhile isDigit = [] := by
    cases rest with
    | nil => rfl
    | cons c cs => exact List.takeWhile_cons_of_neg (Bool.eq_false_iff.1 hr)
  have hdrop : rest.dropWhile isDigit = rest := by
    cases rest with
    | nil => rfl
    | cons c cs => exact List.dropWhile_cons_of_neg (Bool.eq_false_iff.1 hr)
  simp [takeDigits, List.takeWhile_append_of_pos hd.2, List.dropWhile_append_of_pos hd.2, htake,
    hdrop, hd.1]

theorem eq_append_of_takeDigits {cs ds rest : List Char} (h : takeDigits cs = some (ds, rest)) :
    IsNumeral ds ∧ cs = ds ++ rest := by
  unfold takeDigits at h
  dsimp only at h
  split at h
  · cases h
  · next hne =>
    obtain ⟨rfl, rfl⟩ := Prod.mk.inj (Option.some.inj h)
    refine ⟨⟨by simpa using hne, ?_⟩, List.takeWhile_append_dropWhile.symm⟩
    exact List.all_eq_true.1 List.all_takeWhile

theorem takeCategory_word (k : Category) (rest : List Char) :
    takeCategory (k.word.toList ++ rest) = some (k, rest) := by
  cases k <;> rfl

theorem eq_append_of_takeCategory {cs rest : List Char} {k : Category}
    (h : takeCategory cs = some (k, rest)) : cs = k.word.toList ++ rest := by
  obtain ⟨k', -, hk⟩ := List.exists_of_findSome?_eq_some h
  obtain ⟨rest', hrest, he⟩ := Option.map_eq_some_iff.1 hk
  obtain ⟨rfl, rfl⟩ := Prod.mk.inj he
  exact afterText_eq_some_iff.1 hrest

/-! ## Headlines and locations -/

/-- What is written in front of the message of a headline. -/
def Headline.lead (h : Headline) : List Char :=
  h.category.word.toList ++ ([' ', 'T', 'S'] ++ (h.code ++ [':', ' ']))

/-- A headline as it is written. -/
def Headline.chars (h : Headline) : List Char := h.lead ++ h.message

/-- What is written in front of the message of a location. -/
def Located.mark (l : Located) : List Char :=
  '(' :: (l.line ++ ',' :: (l.column ++ ([')', ':', ' '] ++ l.headline.lead)))

/-- A location as it is written. -/
def Located.chars (l : Located) : List Char := l.mark ++ l.headline.message

/-- Whether what should be digits are digits. -/
structure Located.Numeric (l : Located) : Prop where
  line : IsNumeral l.line
  column : IsNumeral l.column
  code : IsNumeral l.headline.code

theorem headline?_eq_some_iff {cs : List Char} {h : Headline} :
    headline? cs = some h ↔ IsNumeral h.code ∧ cs = h.chars := by
  constructor
  · intro hh
    simp only [headline?, Option.bind_eq_bind, Option.bind_eq_some_iff, Option.pure_def,
      Option.some.injEq] at hh
    obtain ⟨⟨k, cs₁⟩, h₁, cs₂, h₂, ⟨code, cs₃⟩, h₃, message, h₄, rfl⟩ := hh
    obtain ⟨hcode, rfl⟩ := eq_append_of_takeDigits h₃
    obtain rfl := afterText_eq_some_iff.1 h₂
    obtain rfl := afterText_eq_some_iff.1 h₄
    exact ⟨hcode, by simpa [Headline.chars, Headline.lead] using eq_append_of_takeCategory h₁⟩
  · rintro ⟨hcode, rfl⟩
    have hdigits : takeDigits (h.code ++ ':' :: ' ' :: h.message) =
        some (h.code, ':' :: ' ' :: h.message) := takeDigits_append hcode rfl
    simp [headline?, Headline.chars, Headline.lead, takeCategory_word, afterText, hdigits]

theorem located?_eq_some_iff {cs : List Char} {l : Located} :
    located? cs = some l ↔ l.Numeric ∧ cs = l.chars := by
  constructor
  · intro hl
    simp only [located?, Option.bind_eq_bind, Option.bind_eq_some_iff, Option.pure_def,
      Option.some.injEq] at hl
    obtain ⟨cs₁, h₁, ⟨line, cs₂⟩, h₂, cs₃, h₃, ⟨column, cs₄⟩, h₄, cs₅, h₅, h, h₆, rfl⟩ := hl
    obtain ⟨hcode, rfl⟩ := headline?_eq_some_iff.1 h₆
    obtain rfl := afterText_eq_some_iff.1 h₅
    obtain ⟨hcolumn, rfl⟩ := eq_append_of_takeDigits h₄
    obtain rfl := afterText_eq_some_iff.1 h₃
    obtain ⟨hline, rfl⟩ := eq_append_of_takeDigits h₂
    obtain rfl := afterText_eq_some_iff.1 h₁
    refine ⟨⟨hline, hcolumn, hcode⟩, ?_⟩
    simp [Located.chars, Located.mark, Headline.chars]
  · rintro ⟨⟨hline, hcolumn, hcode⟩, rfl⟩
    have hheadline := headline?_eq_some_iff.2 ⟨hcode, rfl⟩
    have hafter : takeDigits (l.column ++ ')' :: ':' :: ' ' :: l.headline.chars) =
        some (l.column, ')' :: ':' :: ' ' :: l.headline.chars) :=
      takeDigits_append hcolumn rfl
    have hdigits (rest : List Char) : takeDigits (l.line ++ ',' :: rest) =
        some (l.line, ',' :: rest) := takeDigits_append hline rfl
    rw [Headline.chars] at hheadline hafter
    simp [located?, Located.chars, Located.mark, afterText, hdigits, hafter, hheadline]

theorem Located.Numeric.located?_chars {l : Located} (hl : l.Numeric) :
    located? l.chars = some l :=
  located?_eq_some_iff.2 ⟨hl, rfl⟩

/-- The same location with another message. -/
def Located.say (l : Located) (message : List Char) : Located :=
  { l with headline := { l.headline with message } }

@[simp] theorem Located.chars_say (l : Located) (message : List Char) :
    (l.say message).chars = l.mark ++ message := rfl

theorem Located.Numeric.say {l : Located} (hl : l.Numeric) (message : List Char) :
    (l.say message).Numeric :=
  ⟨hl.line, hl.column, hl.code⟩

/-- What stands behind a location belongs to its message. -/
theorem located?_append {cs : List Char} {l : Located} (h : located? cs = some l)
    (rest : List Char) :
    located? (cs ++ rest) = some (l.say (l.headline.message ++ rest)) := by
  obtain ⟨hl, rfl⟩ := located?_eq_some_iff.1 h
  refine located?_eq_some_iff.2 ⟨hl.say _, ?_⟩
  rw [Located.chars_say, Located.chars, List.append_assoc]

/-! ## Marks -/

/-- Whether a mark stands anywhere in a text. -/
def Marked (cs : List Char) : Prop := ∃ l : Located, l.Numeric ∧ l.mark <:+: cs

theorem not_marked_nil : ¬Marked [] := by
  rintro ⟨l, -, h⟩
  cases List.infix_nil.1 h

theorem marked_cons_iff {c : Char} {cs : List Char} :
    Marked (c :: cs) ↔ (located? (c :: cs)).isSome = true ∨ Marked cs := by
  constructor
  · rintro ⟨l, hl, h⟩
    rcases List.infix_cons_iff.1 h with ⟨rest, hrest⟩ | h
    · left
      rw [← hrest, Option.isSome_iff_exists]
      exact ⟨l.say rest, (hl.say rest).located?_chars⟩
    · exact .inr ⟨l, hl, h⟩
  · rintro (h | ⟨l, hl, h⟩)
    · obtain ⟨l, hl⟩ := Option.isSome_iff_exists.1 h
      obtain ⟨hn, hc⟩ := located?_eq_some_iff.1 hl
      exact ⟨l, hn, hc ▸ (List.prefix_append _ _).isInfix⟩
    · exact ⟨l, hl, List.infix_cons h⟩

instance decidableMarked : DecidablePred Marked
  | [] => isFalse not_marked_nil
  | c :: cs =>
      have := decidableMarked cs
      decidable_of_iff ((located? (c :: cs)).isSome = true ∨ Marked cs) marked_cons_iff.symm

theorem not_mem_of_isNumeral {c : Char} {ds : List Char} (hc : isDigit c = false)
    (hd : IsNumeral ds) : c ∉ ds := by
  intro hm
  rw [hd.2 c hm] at hc
  cases hc

theorem Category.paren_not_mem_word (k : Category) : '(' ∉ k.word.toList := by
  cases k <;> decide

/-- A mark has no parenthesis but the first one. -/
theorem Located.Numeric.paren_not_mem_tail {l : Located} (hl : l.Numeric) : '(' ∉ l.mark.tail := by
  have hparen : isDigit '(' = false := by decide
  simp [Located.mark, Headline.lead, not_mem_of_isNumeral hparen hl.line,
    not_mem_of_isNumeral hparen hl.column, not_mem_of_isNumeral hparen hl.code,
    l.headline.category.paren_not_mem_word]

/-- No mark that begins in front of a location reaches into it, since it would hold the parenthesis
of the location behind its own one. -/
theorem located?_append_eq_none {cs : List Char} {l : Located} (hne : cs ≠ [])
    (hm : ¬Marked cs) : located? (cs ++ l.chars) = none := by
  rw [Option.eq_none_iff_forall_ne_some]
  intro k hk
  obtain ⟨hn, hk⟩ := located?_eq_some_iff.1 hk
  rcases List.append_eq_append_iff.1 hk with ⟨rest, hmark, hrest⟩ | ⟨rest, hcs, -⟩
  · cases rest with
    | nil =>
      rw [List.append_nil] at hmark
      exact hm ⟨k, hn, hmark ▸ List.infix_rfl⟩
    | cons c rest =>
      obtain rfl : '(' = c := (List.cons.inj hrest).1
      obtain ⟨d, ds, rfl⟩ := List.exists_cons_of_ne_nil hne
      apply hn.paren_not_mem_tail
      rw [hmark]
      exact List.mem_append_right ds (.head _)
  · exact hm ⟨k, hn, hcs ▸ (List.prefix_append _ _).isInfix⟩

/-! ## Splitting off the file name -/

theorem splitFile_of_not_marked {file cs : List Char} (hf : file ≠ []) (hm : ¬Marked cs) :
    splitFile file cs = none := by
  induction cs generalizing file with
  | nil => rfl
  | cons c cs ih =>
    rw [marked_cons_iff, not_or] at hm
    have hnone : located? (c :: cs) = none := by simpa using hm.1
    have hne : file.isEmpty = false := by simpa using hf
    simp [splitFile, hne, hnone, ih (List.cons_ne_nil c file) hm.2]

theorem splitFile_append {file cs : List Char} {l : Located} (hf : file ≠ []) (hl : l.Numeric)
    (hm : ¬Marked cs) : splitFile file (cs ++ l.chars) = some (file.reverse ++ cs, l) := by
  have hne : file.isEmpty = false := by simpa using hf
  induction cs generalizing file with
  | nil =>
    have hfound := hl.located?_chars
    obtain ⟨d, ds, hd⟩ : ∃ d ds, l.chars = d :: ds := ⟨_, _, rfl⟩
    rw [hd] at hfound
    simp [hd, splitFile, hne, hfound]
  | cons c cs ih =>
    have hnone := located?_append_eq_none (l := l) (List.cons_ne_nil c cs) hm
    rw [marked_cons_iff, not_or] at hm
    rw [List.cons_append] at hnone
    simp [splitFile, hne, hnone, ih (List.cons_ne_nil c file) hm.2 rfl]

/-- A marked text is split in front of its end. -/
theorem splitFile_of_marked {file cs : List Char} (hf : file ≠ []) (hm : Marked cs)
    (rest : List Char) :
    ∃ name l, splitFile file (cs ++ rest) = some (file.reverse ++ name, l) ∧
      name.length < cs.length := by
  have hne : file.isEmpty = false := by simpa using hf
  induction cs generalizing file with
  | nil => exact absurd hm not_marked_nil
  | cons c cs ih =>
    cases hc : located? (c :: (cs ++ rest)) with
    | some l => exact ⟨[], l, by simp [splitFile, hne, hc], by simp⟩
    | none =>
      have hcs : Marked cs := by
        refine (marked_cons_iff.1 hm).resolve_left fun hsome => ?_
        obtain ⟨l, hl⟩ := Option.isSome_iff_exists.1 hsome
        rw [← List.cons_append, located?_append hl rest] at hc
        cases hc
      obtain ⟨name, l, hsplit, hlt⟩ := ih (List.cons_ne_nil c file) hcs rfl
      refine ⟨c :: name, l, ?_, Nat.succ_lt_succ hlt⟩
      simp [splitFile, hne, hc, hsplit]

/-- A name is split off in front of a location. -/
theorem eq_append_of_splitFile {file cs name : List Char} {l : Located}
    (h : splitFile file cs = some (name, l)) :
    ∃ more, name = file.reverse ++ more ∧ l.Numeric ∧ cs = more ++ l.chars := by
  induction cs generalizing file with
  | nil => cases h
  | cons c cs ih =>
    unfold splitFile at h
    split at h
    · next hempty =>
      obtain ⟨more, rfl, hl, rfl⟩ := ih h
      obtain rfl : file = [] := List.isEmpty_iff.1 hempty
      exact ⟨c :: more, rfl, hl, rfl⟩
    · cases hc : located? (c :: cs) with
      | some found =>
        rw [hc] at h
        obtain ⟨rfl, rfl⟩ := Prod.mk.inj (Option.some.inj h)
        obtain ⟨hl, hchars⟩ := located?_eq_some_iff.1 hc
        exact ⟨[], (List.append_nil _).symm, hl, hchars⟩
      | none =>
        rw [hc] at h
        obtain ⟨more, rfl, hl, rfl⟩ := ih h
        exact ⟨c :: more, by simp, hl, rfl⟩

/-! ## Lines of each kind -/

/-- How what a line is stands to its characters. -/
inductive Line.Spelled : List Char → Line → Prop where
  | blank {cs : List Char} : allBlank cs = true → Spelled cs .blank
  | continuation {cs : List Char} :
      allBlank cs = false → Spelled cs (.continuation (trimChars cs))
  | located {file : List Char} {l : Located} :
      allBlank (file ++ l.chars) = false → l.Numeric → Spelled (file ++ l.chars) (.located file l)
  | global {h : Headline} :
      allBlank h.chars = false → IsNumeral h.code → Spelled h.chars (.global h)
  | other {cs : List Char} : allBlank cs = false → Spelled cs .other

theorem Line.spelled_ofChars (cs : List Char) : Line.Spelled cs (Line.ofChars cs) := by
  unfold Line.ofChars
  split
  · next hblank => exact .blank hblank
  next hblank =>
  have hblank := Bool.eq_false_iff.2 hblank
  split
  · exact .continuation hblank
  cases hsplit : splitFile [] cs with
  | some found =>
    obtain ⟨file, l⟩ := found
    obtain ⟨more, rfl, hl, rfl⟩ := eq_append_of_splitFile hsplit
    exact .located hblank hl
  | none =>
    cases hheadline : headline? cs with
    | some h =>
      obtain ⟨hcode, rfl⟩ := headline?_eq_some_iff.1 hheadline
      exact .global hblank hcode
    | none => exact .other hblank

theorem Category.word_ne_nil (k : Category) : k.word.toList ≠ [] := by
  cases k <;> decide

theorem Category.head_word (k : Category) : k.word.toList.head?.any isBlank = false := by
  cases k <;> decide

theorem Line.ofChars_of_splitFile {c : Char} {cs file : List Char} {l : Located}
    (hc : isBlank c = false) (h : splitFile [c] cs = some (file, l)) :
    Line.ofChars (c :: cs) = .located file l := by
  simp [Line.ofChars, allBlank, hc, splitFile, h]

theorem Line.ofChars_of_headline {c : Char} {cs : List Char} {h : Headline}
    (hc : isBlank c = false) (hs : splitFile [c] cs = none) (hh : headline? (c :: cs) = some h) :
    Line.ofChars (c :: cs) = .global h := by
  simp [Line.ofChars, allBlank, hc, splitFile, hs, hh]

/-- In a line with a location the name in front of it is found exactly if it is not marked behind
its first character. -/
theorem Line.ofChars_located_iff {c : Char} {file : List Char} {l : Located}
    (hc : isBlank c = false) (hl : l.Numeric) :
    Line.ofChars (c :: file ++ l.chars) = .located (c :: file) l ↔ ¬Marked file := by
  rw [List.cons_append]
  constructor
  · intro h hm
    obtain ⟨name, found, hsplit, hlt⟩ := splitFile_of_marked (List.cons_ne_nil c []) hm l.chars
    rw [Line.ofChars_of_splitFile hc hsplit] at h
    obtain ⟨hname, -⟩ := Line.located.inj h
    obtain rfl : name = file := (List.cons.inj hname).2
    exact Nat.lt_irrefl _ hlt
  · intro hm
    exact Line.ofChars_of_splitFile hc (splitFile_append (List.cons_ne_nil c []) hl hm)

/-- A headline alone is found exactly if the line is not marked behind its first character. -/
theorem Line.ofChars_global_iff {h : Headline} (hn : IsNumeral h.code) :
    Line.ofChars h.chars = .global h ↔ ¬Marked h.chars.tail := by
  have hheadline : headline? h.chars = some h := headline?_eq_some_iff.2 ⟨hn, rfl⟩
  obtain ⟨c, cs, hword⟩ := List.exists_cons_of_ne_nil h.category.word_ne_nil
  have hc : isBlank c = false := by simpa [hword] using h.category.head_word
  obtain ⟨ds, hds⟩ : ∃ ds, h.chars = c :: ds := by
    rw [Headline.chars, Headline.lead, hword]
    exact ⟨_, rfl⟩
  rw [hds, List.tail_cons]
  rw [hds] at hheadline
  constructor
  · intro hglobal hm
    obtain ⟨name, found, hsplit, -⟩ := splitFile_of_marked (List.cons_ne_nil c []) hm []
    rw [List.append_nil] at hsplit
    rw [Line.ofChars_of_splitFile hc hsplit] at hglobal
    cases hglobal
  · intro hm
    exact Line.ofChars_of_headline hc (splitFile_of_not_marked (List.cons_ne_nil c []) hm)
      hheadline

theorem Line.ofChars_continuation {indent text : List Char} (hne : indent ≠ [])
    (hi : allBlank indent = true) (ht : text ≠ []) (htrim : Trimmed text) :
    Line.ofChars (indent ++ text) = .continuation text := by
  obtain ⟨c, cs, rfl⟩ := List.exists_cons_of_ne_nil hne
  obtain ⟨d, ds, rfl⟩ := List.exists_cons_of_ne_nil ht
  have hblank : allBlank (c :: cs ++ d :: ds) = false := by
    have hd : isBlank d = false := htrim.head
    simp [allBlank, hd]
  have hhead : (c :: cs ++ d :: ds).head?.any isBlank = true := by
    simpa using List.all_eq_true.1 hi c (.head _)
  rw [Line.ofChars, hblank, hhead, trimChars_indented hi htrim]
  rfl

end ProblemBoard.CompilerText
