import ProblemBoard.Path.Basic

/-!
# Entries of directories

The path of an entry is the path of its directory with a name at the end, whatever the spelling
of the directory.  So the name can be read off again, which `fileName_child` says.
-/

namespace ProblemBoard.Path

/-- A text that names an entry of a directory: it is one piece of a path, and neither empty nor
one of the pieces that lead elsewhere. -/
def IsName (s : String) : Prop :=
  '/' ∉ s.toList ∧ isVoid s.toList = false ∧ s.toList ≠ ['.', '.']

instance (s : String) : Decidable (IsName s) :=
  inferInstanceAs (Decidable (_ ∧ _ ∧ _))

variable (dir : Path) {name : String}

theorem ofPiece_of_isName (h : IsName name) : ofPiece name.toList = some (.name name) := by
  simp [ofPiece, h.2.1, h.2.2]

theorem isAbsolute_of_not_mem (h : '/' ∉ name.toList) : isAbsolute ⟨name⟩ = false := by
  apply Bool.eq_false_iff.2
  intro ha
  exact h (List.mem_of_head? (of_decide_eq_true ha))

theorem join_of_empty {base rel : Path} (hbase : base.text = "") : base.join rel = rel := by
  unfold join
  split
  · rfl
  · rw [hbase]
    simp

/-- A name is put behind a separator, its own one or the one that its directory ends in, unless
there is nothing in front of it. -/
theorem text_child (h : '/' ∉ name.toList) :
    dir.text = "" ∧ (dir.child name).text.toList = name.toList ∨
      (∃ front, dir.text.toList = front ++ ['/'] ∧
        (dir.child name).text.toList = front ++ '/' :: name.toList) ∨
      (dir.child name).text.toList = dir.text.toList ++ '/' :: name.toList := by
  unfold child join
  rw [if_neg (by simp [isAbsolute_of_not_mem h])]
  split
  · next hend =>
    rw [Bool.or_eq_true] at hend
    rcases hend with hempty | hslash
    · have hempty : dir.text = "" := by simpa using hempty
      exact .inl ⟨hempty, by simp [hempty]⟩
    · obtain ⟨front, hfront⟩ := List.getLast?_eq_some_iff.1 (of_decide_eq_true hslash)
      exact .inr (.inl ⟨front, hfront, by simp [hfront]⟩)
  · exact .inr (.inr (by simp))

/-- The text of an entry goes on where that of its directory ends. -/
theorem exists_text_child (h : '/' ∉ name.toList) :
    ∃ rest, (dir.child name).text = dir.text ++ rest := by
  unfold child join
  rw [if_neg (Bool.eq_false_iff.1 (isAbsolute_of_not_mem h))]
  split
  · exact ⟨name, rfl⟩
  · exact ⟨"/" ++ name, String.append_assoc⟩

/-- The path of an entry does not end in a separator. -/
theorem getLast?_text_child (h : IsName name) :
    ∃ c, c ≠ '/' ∧ (dir.child name).text.toList.getLast? = some c := by
  have hne : name.toList ≠ [] := by
    intro hempty
    have hvoid := h.2.1
    rw [hempty] at hvoid
    cases hvoid
  obtain ⟨c, hc⟩ := Option.isSome_iff_exists.1 (List.getLast?_isSome.2 hne)
  have hslash : c ≠ '/' := by
    rintro rfl
    exact h.1 (List.mem_of_getLast? hc)
  refine ⟨c, hslash, ?_⟩
  rcases dir.text_child h.1 with ⟨-, ht⟩ | ⟨front, -, ht⟩ | ht
  · rw [ht, hc]
  · rw [ht, List.append_cons, List.getLast?_append, hc, Option.some_or]
  · rw [ht, List.append_cons, List.getLast?_append, hc, Option.some_or]

/-- Behind the path of an entry there is always a separator of its own. -/
theorem text_child_child (h : IsName name) {below : String} (hb : '/' ∉ below.toList) :
    ((dir.child name).child below).text.toList =
      (dir.child name).text.toList ++ '/' :: below.toList := by
  obtain ⟨c, hslash, hlast⟩ := dir.getLast?_text_child h
  rcases (dir.child name).text_child hb with ⟨hempty, -⟩ | ⟨front, hd, -⟩ | ht
  · rw [hempty] at hlast
    cases hlast
  · rw [hd, List.getLast?_concat] at hlast
    exact absurd (Option.some.inj hlast).symm hslash
  · exact ht

theorem child_child_ne (h : IsName name) {below : String} (hb : '/' ∉ below.toList) :
    (dir.child name).child below ≠ dir.child name := by
  intro heq
  have hlength := congrArg List.length (dir.text_child_child h hb)
  rw [heq, List.length_append, List.length_cons] at hlength
  omega

/-- Behind the pieces of a directory stands the name of an entry.  An empty piece in front of it is
gone, that of a separator at the end of the directory. -/
theorem bodyPieces_child_of_ne (hdir : dir.text ≠ "") (h : '/' ∉ name.toList) :
    (dir.child name).isAbsolute = dir.isAbsolute ∧
      ∃ ps, (dir.child name).bodyPieces = ps ++ [name.toList] ∧
        (dir.bodyPieces = ps ∨ dir.bodyPieces = ps ++ [[]]) := by
  have hname : pieces name.toList = [name.toList] := Text.split_of_not_mem h
  have hfront : ∀ front, pieces (front ++ '/' :: name.toList) = pieces front ++ [name.toList] := by
    intro front
    rw [pieces, Text.split_append, ← pieces, ← pieces, hname]
  have hend : ∀ front, pieces (front ++ ['/']) = pieces front ++ [[]] :=
    fun front => Text.split_append '/' front []
  rcases dir.text_child h with ⟨hempty, -⟩ | ⟨front, hd, ht⟩ | ht
  · exact absurd hempty hdir
  · cases front with
    | nil =>
      refine ⟨by simp [isAbsolute, hd, ht], [], ?_, .inr ?_⟩
      · simp [bodyPieces, isAbsolute, ht, hname]
      · simp [bodyPieces, isAbsolute, hd, pieces, Text.split]
    | cons c cs =>
      have habs : (dir.child name).isAbsolute = dir.isAbsolute := by simp [isAbsolute, hd, ht]
      refine ⟨habs, if dir.isAbsolute then pieces cs else pieces (c :: cs), ?_, .inr ?_⟩
      · rw [bodyPieces, habs, ht]
        split
        · exact hfront cs
        · exact hfront (c :: cs)
      · rw [bodyPieces, hd]
        split
        · exact hend cs
        · exact hend (c :: cs)
  · obtain ⟨c, cs, hd⟩ : ∃ c cs, dir.text.toList = c :: cs :=
      List.exists_cons_of_ne_nil (by simpa using hdir)
    have habs : (dir.child name).isAbsolute = dir.isAbsolute := by simp [isAbsolute, hd, ht]
    refine ⟨habs, dir.bodyPieces, ?_, .inl rfl⟩
    rw [bodyPieces, bodyPieces, habs, ht, hd]
    split
    · exact hfront cs
    · exact hfront (c :: cs)

theorem bodyPieces_child (h : '/' ∉ name.toList) :
    ∃ ps, (dir.child name).bodyPieces = ps ++ [name.toList] := by
  by_cases hdir : dir.text = ""
  · refine ⟨[], ?_⟩
    rw [child, join_of_empty hdir, bodyPieces,
      if_neg (Bool.eq_false_iff.1 (isAbsolute_of_not_mem h))]
    exact Text.split_of_not_mem h
  · obtain ⟨-, ps, hps, -⟩ := dir.bodyPieces_child_of_ne hdir h
    exact ⟨ps, hps⟩

theorem fileName_child (h : IsName name) : (dir.child name).fileName = some name := by
  obtain ⟨ps, hps⟩ := dir.bodyPieces_child h.1
  have hlast : ∀ front,
      ((front ++ [name.toList]).filterMap ofPiece).getLast? = some (.name name) := by
    intro front
    simp [ofPiece_of_isName h]
  have hc : (dir.child name).components.getLast? = some (.name name) := by
    unfold components
    rw [hps]
    split
    · rw [List.getLast?_cons, hlast]
      rfl
    · split
      · next hh =>
        cases ps with
        | nil =>
          have hdot : name.toList = ['.'] := by simpa using hh
          have hvoid := h.2.1
          rw [hdot] at hvoid
          cases hvoid
        | cons p ps =>
          rw [List.cons_append, List.tail_cons, List.getLast?_cons, hlast]
          rfl
      · exact hlast ps
  rw [fileName, hc]

end ProblemBoard.Path
