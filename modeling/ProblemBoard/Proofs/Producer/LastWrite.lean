import Mathlib.Data.List.Induction
import ProblemBoard.Producer.LiveStore

/-!
# The last write

An editor tells the live store of its files in any order: a list of findings for a file, the
removal of a file, the removal of all.  What the store holds for a file depends on nothing but
what was said of that file, and of that only the last word counts.  The spelling of a file is the
one it was published under when it came in, until it is taken away.

`entryAt_edit` says what one edit makes of the entry of a file; everything else follows from it by
induction on the edits.  `last_write_wins` puts it together.
-/

namespace ProblemBoard.LiveStore

/-! ## Edits -/

/-- What an editor tells the store. -/
inductive Edit where
  /-- A list of findings takes the place of the one before. -/
  | update (p : Path) (xs : List Finding)
  | remove (p : Path)
  | clear
  deriving DecidableEq, Repr

namespace Edit

/-- Whether an edit says something of a file. -/
def concerns (q : Path) : Edit → Bool
  | update p _ => p.same q
  | remove p => p.same q
  | clear => true

/-- Whether an edit takes a file away. -/
def drops (q : Path) : Edit → Bool
  | update p xs => p.same q && xs.isEmpty
  | remove p => p.same q
  | clear => true

/-- The entry of a file after an edit, given the one before. -/
def entryAfter (q : Path) (old : Option (Path × List Finding)) :
    Edit → Option (Path × List Finding)
  | update p xs =>
      if p.same q then if xs.isEmpty then none else some ((old.map Prod.fst).getD p, xs) else old
  | remove p => if p.same q then none else old
  | clear => none

end Edit

/-- The store after one more edit. -/
def edit (s : LiveStore) : Edit → LiveStore
  | .update p xs => s.update p xs
  | .remove p => s.remove p
  | .clear => s.clear

/-- The store after some edits. -/
def after (es : List Edit) : LiveStore := es.foldl edit empty

namespace Edit

variable {q : Path} {e : Edit}

/-- An edit says nothing of a file, or takes it away, or publishes findings of it. -/
theorem cases_concerns (q : Path) (e : Edit) :
    e.concerns q = false ∨ e.drops q = true ∨
      ∃ p xs, e = update p xs ∧ p.same q = true ∧ xs ≠ [] := by
  cases e with
  | update p xs =>
    cases hp : p.same q with
    | false => exact .inl hp
    | true =>
      cases xs with
      | nil => exact .inr (.inl (by simp [drops, hp]))
      | cons x xs => exact .inr (.inr ⟨p, x :: xs, rfl, hp, List.cons_ne_nil x xs⟩)
  | remove p =>
    cases hp : p.same q with
    | false => exact .inl hp
    | true => exact .inr (.inl hp)
  | clear => exact .inr (.inl rfl)

theorem concerns_of_drops (h : e.drops q = true) : e.concerns q = true := by
  cases e with
  | update p xs => exact (Bool.and_eq_true_iff.1 h).1
  | remove p => exact h
  | clear => rfl

theorem drops_of_not_concerns (h : e.concerns q = false) : e.drops q = false := by
  apply Bool.eq_false_iff.2
  intro hd
  exact Bool.eq_false_iff.1 h (concerns_of_drops hd)

theorem drops_update {p : Path} {xs : List Finding} (h : xs ≠ []) :
    (update p xs).drops q = false := by
  simp [drops, h]

theorem entryAfter_of_not_concerns (h : e.concerns q = false)
    (old : Option (Path × List Finding)) : e.entryAfter q old = old := by
  cases e with
  | update p xs | remove p => exact if_neg (Bool.eq_false_iff.1 h)
  | clear => cases h

theorem entryAfter_of_drops (h : e.drops q = true) (old : Option (Path × List Finding)) :
    e.entryAfter q old = none := by
  cases e with
  | update p xs =>
    obtain ⟨hp, hx⟩ := Bool.and_eq_true_iff.1 h
    rw [entryAfter, if_pos hp, if_pos hx]
  | remove p => exact if_pos h
  | clear => rfl

theorem entryAfter_update {p : Path} {xs : List Finding} (hp : p.same q = true) (hx : xs ≠ [])
    (old : Option (Path × List Finding)) :
    (update p xs).entryAfter q old = some ((old.map Prod.fst).getD p, xs) := by
  rw [entryAfter, if_pos hp, if_neg (by simpa using hx)]

end Edit

/-- What an edit makes of the entry of a file. -/
theorem entryAt_edit (s : LiveStore) (e : Edit) (q : Path) :
    (s.edit e).files.entryAt q = e.entryAfter q (s.files.entryAt q) := by
  cases e with
  | update p xs =>
    show (s.update p xs).files.entryAt q = _
    rw [update, Edit.entryAfter]
    by_cases hx : xs = []
    · rw [dif_pos hx, hx]
      exact s.files.entryAt_erase p q
    · rw [dif_neg hx]
      refine (PathMap.entryAt_insert ..).trans ?_
      split
      · next hp => rw [if_neg (mt List.isEmpty_iff.1 hx), s.files.entryAt_congr hp]
      · rfl
  | remove p => exact s.files.entryAt_erase p q
  | clear => rfl

theorem after_concat (es : List Edit) (e : Edit) : after (es ++ [e]) = (after es).edit e :=
  List.foldl_append

/-! ## The last word on a file -/

/-- Since some edit with a property, known with the edits before it, all edits have another. -/
def Since (P : List Edit → Edit → Prop) (Q : Edit → Prop) (es : List Edit) : Prop :=
  ∃ front e back, es = front ++ e :: back ∧ P front e ∧ ∀ d ∈ back, Q d

/-- The last that was said of a file is a list of findings that is not empty. -/
def Published (q : Path) (xs : List Finding) : List Edit → Prop :=
  Since (fun _ e => xs ≠ [] ∧ ∃ p, p.same q = true ∧ e = .update p xs) fun d =>
    d.concerns q = false

/-- A file that was not there was published under this spelling, and it was not taken away
since. -/
def Introduced (p : Path) : List Edit → Prop :=
  Since (fun front e => (∀ xs, ¬ Published p xs front) ∧ ∃ xs, xs ≠ [] ∧ e = .update p xs)
    fun d => d.drops p = false

theorem since_nil {P : List Edit → Edit → Prop} {Q : Edit → Prop} : ¬ Since P Q [] := by
  rintro ⟨front, e, back, hes, -⟩
  simp at hes

theorem since_concat_iff {P : List Edit → Edit → Prop} {Q : Edit → Prop} {es : List Edit}
    {e : Edit} : Since P Q (es ++ [e]) ↔ P es e ∨ Q e ∧ Since P Q es := by
  constructor
  · rintro ⟨front, x, back, hes, hx, hback⟩
    rcases List.eq_nil_or_concat back with rfl | ⟨back, d, rfl⟩
    · obtain ⟨rfl, hxe⟩ := List.append_inj' hes rfl
      obtain rfl := List.singleton_inj.1 hxe
      exact .inl hx
    · rw [List.concat_eq_append, ← List.cons_append, ← List.append_assoc] at hes
      obtain ⟨rfl, hde⟩ := List.append_inj' hes rfl
      obtain rfl := List.singleton_inj.1 hde
      rw [List.concat_eq_append, List.forall_mem_append] at hback
      exact .inr ⟨hback.2 e (.head _), front, x, back, rfl, hx, hback.1⟩
  · rintro (hx | ⟨hq, front, x, back, rfl, hx, hback⟩)
    · exact ⟨es, e, [], rfl, hx, by simp⟩
    · refine ⟨front, x, back ++ [e], by simp, hx, List.forall_mem_append.2 ⟨hback, ?_⟩⟩
      exact List.forall_mem_singleton.2 hq

section
variable {q p : Path} {xs : List Finding} {es : List Edit} {e : Edit}

theorem concerns_of_update (h : ∃ p, p.same q = true ∧ e = .update p xs) :
    e.concerns q = true := by
  obtain ⟨p, hp, rfl⟩ := h
  exact hp

theorem published_concat_of_not_concerns (h : e.concerns q = false) :
    Published q xs (es ++ [e]) ↔ Published q xs es := by
  refine since_concat_iff.trans ⟨?_, fun hes => .inr ⟨h, hes⟩⟩
  rintro (⟨-, he⟩ | ⟨-, hes⟩)
  · exact absurd (concerns_of_update he) (Bool.eq_false_iff.1 h)
  · exact hes

theorem published_concat_of_concerns (h : e.concerns q = true) :
    Published q xs (es ++ [e]) ↔ xs ≠ [] ∧ ∃ p, p.same q = true ∧ e = .update p xs :=
  since_concat_iff.trans (or_iff_left fun hes => Bool.eq_false_iff.1 hes.1 h)

/-- The store holds for a file what was last published of it. -/
theorem get?_after_iff : (after es).files.get? q = some xs ↔ Published q xs es := by
  induction es using List.reverseRecOn with
  | nil => exact iff_of_false nofun since_nil
  | append_singleton es e ih =>
    rw [after_concat, PathMap.get?_eq_map, entryAt_edit]
    rcases e.cases_concerns q with hc | hd | ⟨p, ys, rfl, hp, hy⟩
    · rw [Edit.entryAfter_of_not_concerns hc, published_concat_of_not_concerns hc]
      exact ih
    · rw [Edit.entryAfter_of_drops hd, published_concat_of_concerns (Edit.concerns_of_drops hd)]
      refine iff_of_false nofun ?_
      rintro ⟨hx, p, -, rfl⟩
      rw [Edit.drops_update hx] at hd
      cases hd
    · rw [Edit.entryAfter_update hp hy,
        published_concat_of_concerns (concerns_of_update ⟨p, hp, rfl⟩), Option.map_some,
        Option.some_inj]
      constructor
      · rintro rfl
        exact ⟨hy, p, hp, rfl⟩
      · rintro ⟨-, p', -, he⟩
        exact (Edit.update.inj he).2

/-- A file is spelled in the store as it was when it came in: only a file that is not there yet
takes its spelling from an edit. -/
theorem spelling_after_iff :
    ((after es).files.entryAt p).map Prod.fst = some p ↔ Introduced p es := by
  induction es using List.reverseRecOn with
  | nil => exact iff_of_false nofun since_nil
  | append_singleton es e ih =>
    rw [after_concat, entryAt_edit, Introduced, since_concat_iff, ← Introduced]
    rcases e.cases_concerns p with hc | hd | ⟨p', ys, rfl, hp, hy⟩
    · rw [Edit.entryAfter_of_not_concerns hc, ih]
      refine ⟨fun hes => .inr ⟨Edit.drops_of_not_concerns hc, hes⟩, ?_⟩
      rintro (⟨-, xs, -, rfl⟩ | ⟨-, hes⟩)
      · exact absurd p.same_refl (Bool.eq_false_iff.1 hc)
      · exact hes
    · rw [Edit.entryAfter_of_drops hd]
      refine iff_of_false nofun ?_
      rintro (⟨-, xs, hx, rfl⟩ | ⟨hkept, -⟩)
      · rw [Edit.drops_update hx] at hd
        cases hd
      · exact Bool.eq_false_iff.1 hkept hd
    · rw [Edit.entryAfter_update hp hy, Option.map_some, Option.some_inj, ← ih]
      have hthere : (∀ xs, ¬ Published p xs es) ↔ (after es).files.entryAt p = none := by
        simp only [← get?_after_iff, PathMap.get?_eq_map]
        rw [← Option.eq_none_iff_forall_ne_some, Option.map_eq_none_iff]
      rw [hthere]
      cases (after es).files.entryAt p with
      | none => simp [Edit.drops_update hy, hy]
      | some old => simp [Edit.drops_update hy]

end

/-! ## Edits of different files -/

/-- The entry of a file follows the edits that say something of the file. -/
theorem entryAt_after (q : Path) (es : List Edit) :
    (after es).files.entryAt q = (es.filter (·.concerns q)).foldl (Edit.entryAfter q) none := by
  induction es using List.reverseRecOn with
  | nil => rfl
  | append_singleton es e ih =>
    rw [after_concat, entryAt_edit, ih, List.filter_append, List.foldl_append]
    cases hc : e.concerns q with
    | true => rw [List.filter_cons_of_pos hc, List.filter_nil, List.foldl_cons, List.foldl_nil]
    | false =>
      rw [List.filter_cons_of_neg (Bool.eq_false_iff.1 hc), List.filter_nil, List.foldl_nil,
        Edit.entryAfter_of_not_concerns hc]

/-- Edits that say the same of each file, in the same order, lead to the same store. -/
theorem after_eq_of_filter {es es' : List Edit}
    (h : ∀ q, es.filter (·.concerns q) = es'.filter (·.concerns q)) : after es = after es' := by
  have hfiles : (after es).files = (after es').files := by
    refine PathMap.ext_entryAt fun q => ?_
    rw [entryAt_after, entryAt_after, h]
  exact LiveStore.ext hfiles

/-- Two edits of different files say the same in either order. -/
theorem filter_concerns_swap {d e : Edit} (h : ∀ q, d.concerns q = false ∨ e.concerns q = false)
    (front back : List Edit) (q : Path) :
    (front ++ d :: e :: back).filter (·.concerns q) =
      (front ++ e :: d :: back).filter (·.concerns q) := by
  rw [List.filter_append, List.filter_append]
  rcases h q with hd | he
  · simp [List.filter_cons, hd]
  · simp [List.filter_cons, he]

/-! ## The store as a map -/

/-- The store is a map in which the last write wins.  It holds for a file exactly the list that was
last published of it, whatever the spelling, unless it was taken away since; each file has one entry
with a list that is not empty, under the spelling it came in with.  Only what is said of one and the
same file depends on the order, and every request is answered with all that the store holds. -/
theorem last_write_wins (es : List Edit) :
    (∀ q xs, (∃ e ∈ (after es).snapshot.files.entries, e.1.same q = true ∧ e.2 = xs) ↔
        Published q xs es) ∧
      (∀ p, (∃ e ∈ (after es).snapshot.files.entries, e.1 = p) ↔ Introduced p es) ∧
      ((after es).snapshot.files.entries.Pairwise fun d e => d.1.same e.1 = false) ∧
      (∀ e ∈ (after es).snapshot.files.entries, e.2 ≠ []) ∧
      (after es).snapshot.global = [] ∧
      (after es).fileCount = (after es).snapshot.files.entries.length ∧
      (∀ es', (∀ q, es'.filter (·.concerns q) = es.filter (·.concerns q)) →
        after es' = after es) ∧
      ∀ r, (after es).answer r = .ok (after es).snapshot := by
  have hlist : ∀ q xs, (∃ e ∈ (after es).files.entries, e.1.same q = true ∧ e.2 = xs) ↔
      Published q xs es :=
    fun q xs => PathMap.get?_eq_some_iff.symm.trans get?_after_iff
  refine ⟨hlist, fun p => ?_, (after es).files.sorted.imp Path.not_same_of_before,
    fun e he => (after es).filled e.2 (List.mem_map_of_mem he), rfl, rfl,
    fun es' h => after_eq_of_filter h, fun r => rfl⟩
  rw [← spelling_after_iff, Option.map_eq_some_iff]
  simp only [PathMap.entryAt_eq_some_iff]
  constructor
  · rintro ⟨e, he, rfl⟩
    exact ⟨e, ⟨he, e.1.same_refl⟩, rfl⟩
  · rintro ⟨e, ⟨he, -⟩, rfl⟩
    exact ⟨e, he, rfl⟩

/-- A file is published twice under two spellings and another one comes and goes in between.  The
first file has its second list under its first spelling, whichever of its edits comes after the
other file. -/
theorem last_write_wins_respelled :
    let x : Finding := ⟨⟨1, 1⟩, none, .one, .error, "first", none, none⟩
    let y : Finding := ⟨⟨1, 1⟩, none, .one, .hint, "second", none, none⟩
    let told : List Edit :=
      [.update ⟨"/a"⟩ [x], .update ⟨"/b"⟩ [x], .update ⟨"//a"⟩ [y], .update ⟨"/b/"⟩ []]
    let swapped : List Edit :=
      [.update ⟨"/a"⟩ [x], .update ⟨"//a"⟩ [y], .update ⟨"/b"⟩ [x], .update ⟨"/b/"⟩ []]
    (∀ q, swapped.filter (·.concerns q) = told.filter (·.concerns q)) ∧
      after swapped = after told ∧
      (∃ e ∈ (after told).snapshot.files.entries, e.1.same ⟨"/./a"⟩ = true ∧ e.2 = [y]) ∧
      (∃ e ∈ (after told).snapshot.files.entries, e.1 = ⟨"/a"⟩) ∧
      ¬ ∃ e ∈ (after told).snapshot.files.entries, e.1 = ⟨"/b"⟩ := by
  intro x y told swapped
  have hother : ∀ q, Edit.concerns q (.update ⟨"//a"⟩ [y]) = false ∨
      Edit.concerns q (.update ⟨"/b"⟩ [x]) = false := by
    intro q
    by_cases ha : Path.same ⟨"//a"⟩ q = true
    · refine .inr (Bool.eq_false_iff.2 fun hb => ?_)
      have hab := Path.same_trans ha (Path.same_symm hb)
      exact absurd hab (by decide)
    · exact .inl (Bool.eq_false_iff.2 ha)
  have hsame : ∀ q, swapped.filter (·.concerns q) = told.filter (·.concerns q) :=
    filter_concerns_swap hother [_] [_]
  have hgone : ∀ front xs, ¬ Published ⟨"/b"⟩ xs (front ++ [.update ⟨"/b/"⟩ []]) := by
    intro front xs h
    obtain ⟨hne, p, -, he⟩ := (published_concat_of_concerns (by decide)).1 h
    exact hne (Edit.update.inj he).2.symm
  obtain ⟨hlist, hspelling, -, -, -, -, horder, -⟩ := last_write_wins told
  refine ⟨hsame, horder swapped hsame, (hlist _ _).2 ?_, (hspelling _).2 ?_, ?_⟩
  · exact ⟨[.update ⟨"/a"⟩ [x], .update ⟨"/b"⟩ [x]], .update ⟨"//a"⟩ [y], [.update ⟨"/b/"⟩ []], rfl,
      ⟨List.cons_ne_nil _ _, ⟨"//a"⟩, by decide, rfl⟩, by decide⟩
  · exact ⟨[], .update ⟨"/a"⟩ [x], _, rfl,
      ⟨fun xs h => since_nil h, [x], List.cons_ne_nil _ _, rfl⟩, by decide⟩
  · rintro ⟨e, he, hb⟩
    have hsame : e.1.same ⟨"/b"⟩ = true := by
      rw [hb]
      exact Path.same_refl _
    exact hgone [_, _, _] e.2 ((hlist ⟨"/b"⟩ e.2).1 ⟨e, he, hsame, rfl⟩)

end ProblemBoard.LiveStore
