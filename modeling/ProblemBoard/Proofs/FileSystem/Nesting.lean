import ProblemBoard.FileSystem.Image
import ProblemBoard.Proofs.Path.Entry

/-!
# Files lie in directories

Where a file stands at an entry of a path, a directory stands at the path.  Every image of a file
system is like that, seen from any working directory: an image is followed name by name, and only a
directory leads on.
-/

namespace ProblemBoard

/-- Every file lies in a directory. -/
def FileSystem.Nested (fs : FileSystem) : Prop :=
  ∀ (dir : Path) (name : String), dir.text ≠ "" → '/' ∉ name.toList →
    fs.isFile (dir.child name) = true → fs.isDirectory dir = true

namespace Image

variable {m : Image}

theorem follow_append (start : Location) (ps qs : List (List Char)) :
    m.follow start (ps ++ qs) = (m.follow start ps).bind fun l => m.follow l qs := by
  induction ps generalizing start with
  | nil => rfl
  | cons p ps ih =>
    rw [List.cons_append, follow, follow]
    split
    · rfl
    · rfl
    · split
      · exact ih start
      · split
        · exact ih start.dropLast
        · dsimp only
          split
          · rfl
          · exact ih _

/-- Only a directory leads on. -/
theorem get?_of_follow_cons {start l : Location} {p : List Char} {ps : List (List Char)}
    (h : m.follow start (p :: ps) = .ok l) : m.get? start = some .directory := by
  rw [follow] at h
  split at h
  · cases h
  · cases h
  · next hdir => exact hdir

theorem follow_void {start : Location} (h : m.get? start = some .directory) :
    m.follow start [[]] = .ok start := by
  rw [follow, h]
  rfl

/-- Followed to an entry of a directory, an image has a directory on the way. -/
theorem follow_dir {start l : Location} {dir : Path} {name : String} (hdir : dir.text ≠ "")
    (hname : '/' ∉ name.toList) (h : m.follow start (dir.child name).bodyPieces = .ok l) :
    ∃ d, m.follow start dir.bodyPieces = .ok d ∧ m.get? d = some .directory := by
  obtain ⟨-, ps, hchild, hps⟩ := dir.bodyPieces_child_of_ne hdir hname
  rw [hchild, follow_append] at h
  cases hd : m.follow start ps with
  | error e =>
    rw [hd] at h
    cases h
  | ok d =>
    rw [hd] at h
    have hget : m.get? d = some .directory := get?_of_follow_cons h
    refine ⟨d, ?_, hget⟩
    rcases hps with hps | hps
    · rw [hps, hd]
    · rw [hps, follow_append, hd]
      exact follow_void hget

/-- A path that can be used at all leads where its pieces lead, if something stands there. -/
theorem locate_eq_ok_iff {cwd l : Location} {p : Path} :
    m.locate cwd p = .ok l ↔
      p.text ≠ "" ∧ '\x00' ∉ p.text.toList ∧ p.text.utf8ByteSize ≤ maxPath ∧
        m.follow (if p.isAbsolute then [] else cwd) p.bodyPieces = .ok l ∧
          (m.get? l).isSome = true := by
  unfold locate
  split
  · next hempty => simp_all
  next hempty =>
  split
  · next hnul => simp_all
  next hnul =>
  split
  · next hsize => simp; omega
  next hsize =>
  have hpath : p.text ≠ "" := by simpa using hempty
  have htext : '\x00' ∉ p.text.toList := by simpa using hnul
  have hlength : p.text.utf8ByteSize ≤ maxPath := Nat.le_of_not_lt hsize
  cases hfollow : m.follow (if p.isAbsolute then [] else cwd) p.bodyPieces with
  | error e => simp [bind, Except.bind]
  | ok d =>
    simp only [bind, Except.bind, Except.ok.injEq]
    constructor
    · intro h
      split at h
      · next e he =>
        obtain rfl := Except.ok.inj h
        exact ⟨hpath, htext, hlength, rfl, he ▸ rfl⟩
      · cases h
    · rintro ⟨-, -, -, rfl, hsome⟩
      obtain ⟨e, he⟩ := Option.isSome_iff_exists.1 hsome
      rw [he]

/-- Where an entry of a directory can be located, the directory can, and it is one. -/
theorem locate_dir {cwd l : Location} {dir : Path} {name : String} (hdir : dir.text ≠ "")
    (hname : '/' ∉ name.toList) (h : m.locate cwd (dir.child name) = .ok l) :
    ∃ d, m.locate cwd dir = .ok d ∧ m.get? d = some .directory := by
  obtain ⟨rest, hrest⟩ := dir.exists_text_child hname
  obtain ⟨habs, -⟩ := dir.bodyPieces_child_of_ne hdir hname
  obtain ⟨-, hnul, hsize, hfollow, -⟩ := locate_eq_ok_iff.1 h
  rw [hrest, String.toList_append, List.mem_append, not_or] at hnul
  rw [hrest, String.utf8ByteSize_append] at hsize
  rw [habs] at hfollow
  obtain ⟨d, hd, hget⟩ := follow_dir hdir hname hfollow
  exact ⟨d, locate_eq_ok_iff.2 ⟨hdir, hnul.1, by omega, hd, hget ▸ rfl⟩, hget⟩

theorem nested_seenFrom (m : Image) (cwd : Location) : (m.seenFrom cwd).Nested := by
  intro dir name hdir hname hfile
  cases hl : m.locate cwd (dir.child name) with
  | error e => simp [FileSystem.isFile, seenFrom, entryAt, hl, bind, Except.bind] at hfile
  | ok l =>
    obtain ⟨d, hd, hget⟩ := locate_dir hdir hname hl
    simp [FileSystem.isDirectory, seenFrom, entryAt, hd, hget, bind, Except.bind]

end Image

end ProblemBoard
