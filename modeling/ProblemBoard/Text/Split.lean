/-!
# Splitting texts

`split_append` says that a separator cuts a text in two parts that are split on their own, and
`split_eq_cons_iff` and `split_eq_append_iff` where the pieces come from.
-/

namespace ProblemBoard.Text

/-- What stands between the occurrences of a character; always one piece more than there are
occurrences. -/
def split (sep : Char) : List Char → List (List Char)
  | [] => [[]]
  | c :: cs =>
      if c = sep then [] :: split sep cs
      else
        match split sep cs with
        | [] => [[c]]
        | p :: ps => (c :: p) :: ps

theorem split_ne_nil (sep : Char) (cs : List Char) : split sep cs ≠ [] := by
  cases cs with
  | nil => simp [split]
  | cons c cs =>
    unfold split
    split
    · simp
    · split <;> simp

theorem split_append (sep : Char) (as bs : List Char) :
    split sep (as ++ sep :: bs) = split sep as ++ split sep bs := by
  induction as with
  | nil => simp [split]
  | cons c cs ih =>
    rw [List.cons_append, split, split, ih]
    split
    · rfl
    · cases h : split sep cs with
      | nil => exact absurd h (split_ne_nil sep cs)
      | cons p ps => rfl

theorem split_of_not_mem {sep : Char} {cs : List Char} (h : sep ∉ cs) : split sep cs = [cs] := by
  induction cs with
  | nil => rfl
  | cons c cs ih =>
    rw [List.mem_cons, not_or] at h
    rw [split, if_neg (Ne.symm h.1), ih h.2]

theorem split_append_of_not_mem {sep : Char} {seg : List Char} (h : sep ∉ seg) (rest : List Char) :
    split sep (seg ++ sep :: rest) = seg :: split sep rest := by
  rw [split_append, split_of_not_mem h, List.singleton_append]

/-- The first piece ends at the first separator, or with the text. -/
theorem split_eq_cons_iff {sep : Char} {cs p : List Char} {ps : List (List Char)} :
    split sep cs = p :: ps ↔
      sep ∉ p ∧ (cs = p ∧ ps = [] ∨ ∃ rest, cs = p ++ sep :: rest ∧ split sep rest = ps) := by
  constructor
  · intro h
    by_cases hmem : sep ∈ cs
    · obtain ⟨seg, rest, rfl, hseg⟩ := List.eq_append_cons_of_mem hmem
      rw [split_append_of_not_mem hseg] at h
      obtain ⟨rfl, rfl⟩ := List.cons.inj h
      exact ⟨hseg, .inr ⟨rest, rfl, rfl⟩⟩
    · rw [split_of_not_mem hmem] at h
      obtain ⟨rfl, rfl⟩ := List.cons.inj h
      exact ⟨hmem, .inl ⟨rfl, rfl⟩⟩
  · rintro ⟨hp, ⟨rfl, rfl⟩ | ⟨rest, rfl, rfl⟩⟩
    · exact split_of_not_mem hp
    · exact split_append_of_not_mem hp rest

/-- Pieces are cut in two at a separator. -/
theorem split_eq_append_iff {sep : Char} {cs : List Char} {ps qs : List (List Char)}
    (hp : ps ≠ []) (hq : qs ≠ []) :
    split sep cs = ps ++ qs ↔
      ∃ front rest, cs = front ++ sep :: rest ∧ split sep front = ps ∧ split sep rest = qs := by
  constructor
  · intro h
    induction ps generalizing cs with
    | nil => exact absurd rfl hp
    | cons p ps ih =>
      rw [List.cons_append, split_eq_cons_iff] at h
      obtain ⟨hsep, ⟨-, hnil⟩ | ⟨rest, rfl, hrest⟩⟩ := h
      · exact absurd (List.append_eq_nil_iff.1 hnil).2 hq
      · cases ps with
        | nil => exact ⟨p, rest, rfl, split_of_not_mem hsep, hrest⟩
        | cons p' ps =>
          obtain ⟨front, rest, rfl, hfront, hrest⟩ := ih (List.cons_ne_nil _ _) hrest
          refine ⟨p ++ sep :: front, rest, by simp, ?_, hrest⟩
          rw [split_append_of_not_mem hsep, hfront]
  · rintro ⟨front, rest, rfl, rfl, rfl⟩
    exact split_append sep front rest

/-- Every other character of a text stands in one of its pieces. -/
theorem mem_iff_exists_mem_split {sep c : Char} (hc : c ≠ sep) {cs : List Char} :
    c ∈ cs ↔ ∃ p ∈ split sep cs, c ∈ p := by
  generalize hps : split sep cs = ps
  induction ps generalizing cs with
  | nil => exact absurd hps (split_ne_nil sep cs)
  | cons p ps ih =>
    obtain ⟨-, ⟨rfl, rfl⟩ | ⟨rest, rfl, hrest⟩⟩ := split_eq_cons_iff.1 hps
    · simp
    · simp [hc, ih hrest]

theorem not_mem_of_mem_split {sep : Char} {cs p : List Char} (h : p ∈ split sep cs) : sep ∉ p := by
  generalize hps : split sep cs = ps at h
  induction ps generalizing cs with
  | nil => cases h
  | cons q qs ih =>
    obtain ⟨hq, ⟨-, rfl⟩ | ⟨rest, -, hrest⟩⟩ := split_eq_cons_iff.1 hps
    · obtain rfl := List.mem_singleton.1 h
      exact hq
    · rcases List.mem_cons.1 h with rfl | h
      · exact hq
      · exact ih hrest h

/-- Pieces that are put together with separators come apart again. -/
theorem split_intercalate {sep : Char} {ps : List (List Char)} (hne : ps ≠ [])
    (h : ∀ p ∈ ps, sep ∉ p) : split sep ([sep].intercalate ps) = ps := by
  induction ps with
  | nil => exact absurd rfl hne
  | cons p ps ih =>
    obtain ⟨hp, hps⟩ := List.forall_mem_cons.1 h
    cases ps with
    | nil => rw [List.intercalate_singleton, split_of_not_mem hp]
    | cons q qs =>
      rw [List.intercalate_cons_cons, List.append_assoc, List.singleton_append,
        split_append_of_not_mem hp, ih (List.cons_ne_nil q qs) hps]

end ProblemBoard.Text
