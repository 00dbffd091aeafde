import ProblemBoard.Proofs.Collect.Relocation
import ProblemBoard.Proofs.Collect.Shares
import ProblemBoard.View.Grouping

/-!
# Arranging problems of a moved workspace

Problems of a moved workspace are collected into the same groups, and the groups are put into the
same order, since labels and the order of paths do not change.  So the tree has the same shape with
the same labels, and the leaves are the same problems from left to right.  With what is collected
this makes `Relocation.collect_arrange_moved`: where a workspace lies does not matter.
-/

namespace ProblemBoard

namespace Relocation

/-! ## Trees that correspond -/

/-- Two nodes have the same shape, the same labels and the same problems at their leaves. -/
inductive MovesNode (m : Relocation) : Node → Node → Prop where
  | leaf {x x' : Problem} (h : m.MovesProblem x x') :
      MovesNode m (.leaf x x.file.fileUrl) (.leaf x' x'.file.fileUrl)
  | ruleGroup (label : String) {children children' : List Node}
      (h : List.Forall₂ (MovesNode m) children children') :
      MovesNode m (.ruleGroup label children) (.ruleGroup label children')
  | fileGroup (label : String) {path path' : Path} {children children' : List Node}
      (hp : m.Moves path path') (h : List.Forall₂ (MovesNode m) children children') :
      MovesNode m (.fileGroup label path children) (.fileGroup label path' children')

/-- Two views have trees of the same shape, and the same problems in the order of navigation. -/
structure MovesView (m : Relocation) (v v' : View) : Prop where
  roots : List.Forall₂ m.MovesNode v.roots v'.roots
  flat : List.Forall₂ m.MovesProblem v.flat v'.flat

variable {m : Relocation}

mutual

theorem MovesNode.leaves : ∀ {n n' : Node}, m.MovesNode n n' →
    List.Forall₂ m.MovesProblem n.leaves n'.leaves
  | _, _, .leaf h => .cons h .nil
  | _, _, .ruleGroup _ h => forall₂_leavesOf h
  | _, _, .fileGroup _ _ h => forall₂_leavesOf h

theorem forall₂_leavesOf : ∀ {ns ns' : List Node}, List.Forall₂ m.MovesNode ns ns' →
    List.Forall₂ m.MovesProblem (leavesOf ns) (leavesOf ns')
  | _, _, .nil => .nil
  | _, _, .cons h hs => List.rel_append h.leaves (forall₂_leavesOf hs)

end

/-! ## Groups that correspond -/

section
variable {κ : Type} {Key : κ → κ → Prop} {same : κ → κ → Bool} {ps ps' : List Problem}

/-- Two groups have keys that correspond, and the same problems in the same order. -/
def MovesGroup (m : Relocation) (Key : κ → κ → Prop) (g g' : κ × List Problem) : Prop :=
  Key g.1 g'.1 ∧ List.Forall₂ m.MovesProblem g.2 g'.2

theorem forall₂_addMember
    (hsame : ∀ a a' b b', Key a a' → Key b b' → same a b = same a' b') {k k' : κ}
    (hk : Key k k') {p p' : Problem} (hp : m.MovesProblem p p') {gs gs' : List (κ × List Problem)}
    (hgs : List.Forall₂ (m.MovesGroup Key) gs gs') :
    List.Forall₂ (m.MovesGroup Key) (Grouping.addMember same k p gs)
      (Grouping.addMember same k' p' gs') := by
  induction hgs with
  | nil => exact .cons ⟨hk, .cons hp .nil⟩ .nil
  | cons hg hgs ih =>
    rw [Grouping.addMember, Grouping.addMember, hsame _ _ _ _ hg.1 hk]
    split
    · exact .cons ⟨hg.1, List.rel_append hg.2 (.cons hp .nil)⟩ hgs
    · exact .cons hg ih

/-- Problems that correspond are collected into groups that correspond. -/
theorem forall₂_collect
    (hsame : ∀ a a' b b', Key a a' → Key b b' → same a b = same a' b') {key : Problem → κ}
    (hkey : ∀ p p', m.MovesProblem p p' → Key (key p) (key p'))
    (hps : List.Forall₂ m.MovesProblem ps ps') :
    List.Forall₂ (m.MovesGroup Key) (Grouping.collect same key ps)
      (Grouping.collect same key ps') := by
  refine List.rel_foldl ?_ .nil hps
  intro gs gs' hgs p p' hp
  exact forall₂_addMember hsame (hkey p p' hp) hp hgs

end

/-- What corresponds and is compared alike is sorted alike. -/
theorem forall₂_mergeSort {α β : Type} {Rel : α → β → Prop} {le : α → α → Bool}
    {le' : β → β → Bool} (hle : ∀ a a' b b', Rel a a' → Rel b b' → le a b = le' a' b')
    {as : List α} {bs : List β} (h : List.Forall₂ Rel as bs) :
    List.Forall₂ Rel (as.mergeSort le) (bs.mergeSort le') := by
  have hzip : ∀ z ∈ as.zip bs, Rel z.1 z.2 := fun z hz => List.forall₂_zip h hz
  have hfst : ((as.zip bs).mergeSort fun x y => le x.1 y.1).map Prod.fst = as.mergeSort le := by
    rw [List.map_mergeSort (s := le) (f := Prod.fst) fun _ _ _ _ => rfl,
      List.map_fst_zip (Nat.le_of_eq h.length_eq)]
  have hsnd : ((as.zip bs).mergeSort fun x y => le x.1 y.1).map Prod.snd = bs.mergeSort le' := by
    rw [List.map_mergeSort (s := le') (f := Prod.snd) fun x hx y hy =>
        hle x.1 x.2 y.1 y.2 (hzip x hx) (hzip y hy),
      List.map_snd_zip (Nat.le_of_eq h.length_eq.symm)]
  rw [← hfst, ← hsnd, List.forall₂_map_left_iff, List.forall₂_map_right_iff, List.forall₂_same]
  intro z hz
  exact hzip z (List.mem_mergeSort.1 hz)

/-! ## Arranged problems -/

section
variable {ps ps' : List Problem}

theorem MovesProblem.ruleLabel_eq {x x' : Problem} (h : m.MovesProblem x x') :
    x.ruleLabel = x'.ruleLabel := by
  rw [h.rest]
  rfl

theorem forall₂_leafOf (hps : List.Forall₂ m.MovesProblem ps ps') :
    List.Forall₂ m.MovesNode (ps.map Grouping.leafOf) (ps'.map Grouping.leafOf) := by
  refine List.rel_map ?_ hps
  intro x x' hx
  exact .leaf hx

theorem forall₂_byRule (hps : List.Forall₂ m.MovesProblem ps ps') :
    List.Forall₂ m.MovesNode (Grouping.byRule ps) (Grouping.byRule ps') := by
  have hgroups : List.Forall₂ (m.MovesGroup Eq) (Grouping.collect (· == ·) Problem.ruleLabel ps)
      (Grouping.collect (· == ·) Problem.ruleLabel ps') := by
    refine forall₂_collect ?_ ?_ hps
    · rintro a _ b _ rfl rfl
      rfl
    · intro x x' hx
      exact hx.ruleLabel_eq
  refine List.rel_map ?_ (forall₂_mergeSort ?_ hgroups)
  · rintro ⟨l, qs⟩ ⟨l', qs'⟩ ⟨rfl, hqs⟩
    exact .ruleGroup l (forall₂_leafOf hqs)
  · rintro ⟨l, qs⟩ ⟨l', qs'⟩ ⟨k, rs⟩ ⟨k', rs'⟩ ⟨rfl, -⟩ ⟨rfl, -⟩
    rfl

/-- Two labelled files are one file with one label. -/
def MovesLabelled (m : Relocation) (a a' : String × Path) : Prop :=
  a.1 = a'.1 ∧ m.Moves a.2 a'.2

theorem MovesLabelled.fileLe_eq {a a' b b' : String × Path} (ha : m.MovesLabelled a a')
    (hb : m.MovesLabelled b b') : Grouping.fileLe a b = Grouping.fileLe a' b' := by
  rw [Grouping.fileLe, Grouping.fileLe, ha.1, hb.1, hb.2.before_eq ha.2]

theorem forall₂_byFile {inside : List Problem → List Node}
    (hinside : ∀ {qs qs'}, List.Forall₂ m.MovesProblem qs qs' →
      List.Forall₂ m.MovesNode (inside qs) (inside qs'))
    (hps : List.Forall₂ m.MovesProblem ps ps') :
    List.Forall₂ m.MovesNode (Grouping.byFile m.old inside ps)
      (Grouping.byFile m.new inside ps') := by
  have hgroups : List.Forall₂ (m.MovesGroup m.Moves) (Grouping.collect Path.same Problem.file ps)
      (Grouping.collect Path.same Problem.file ps') := by
    refine forall₂_collect ?_ ?_ hps
    · intro f f' g g' hf hg
      exact hf.same_eq hg
    · intro x x' hx
      exact hx.file
  have hlabelled : List.Forall₂ (m.MovesGroup m.MovesLabelled)
      ((Grouping.collect Path.same Problem.file ps).map fun g => ((m.old.label g.1, g.1), g.2))
      ((Grouping.collect Path.same Problem.file ps').map
        fun g => ((m.new.label g.1, g.1), g.2)) := by
    refine List.rel_map ?_ hgroups
    rintro ⟨f, qs⟩ ⟨f', qs'⟩ ⟨hf, hqs⟩
    exact ⟨⟨hf.label_eq, hf⟩, hqs⟩
  refine List.rel_map ?_ (forall₂_mergeSort ?_ hlabelled)
  · rintro ⟨⟨l, f⟩, qs⟩ ⟨⟨l', f'⟩, qs'⟩ ⟨⟨hl, hf⟩, hqs⟩
    obtain rfl : l = l' := hl
    exact .fileGroup l hf (hinside hqs)
  · intro g g' k k' hg hk
    exact hg.1.fileLe_eq hk.1

/-- Problems that correspond are arranged alike in every mode. -/
theorem movesView_arrange (hps : List.Forall₂ m.MovesProblem ps ps') (mode : GroupMode) :
    m.MovesView (View.arrange ps mode m.old) (View.arrange ps' mode m.new) := by
  have hroots : List.Forall₂ m.MovesNode (View.arrange ps mode m.old).roots
      (View.arrange ps' mode m.new).roots := by
    cases mode with
    | file => exact forall₂_byFile forall₂_leafOf hps
    | rule => exact forall₂_byRule hps
    | both => exact forall₂_byFile forall₂_byRule hps
  exact ⟨hroots, forall₂_leavesOf hroots⟩

end

/-! ## Scans of moved workspaces -/

open Collect

/-- A workspace is scanned at two absolute roots, both of them directories, where as much is known
of it and the producers find the same in the same files.  Then the same producers are asked, and the
scans end in the same error, or in collections that correspond: the problems one by one, in one file
as seen from the roots and otherwise the same, those of the program as a whole at their roots, and
the same failures.  Something is collected if the patterns can be used and no producer panics when
asked for its name.  In every mode the collected problems are arranged in trees of one shape, with
the same labels and with the same problems as leaves, from left to right. -/
theorem collect_arrange_moved (m : Relocation) (fs fs' : FileSystem)
    (refused : List String → Option String) (name : ProducerKind → Except String String)
    (ask ask' : ProducerKind → Request → Outcome) (p p' : Project) (f : Filters)
    (hp : m.MovesProject p p') (hroot : fs.isDirectory p.root = true)
    (hroot' : fs'.isDirectory p'.root = true)
    (hask : ∀ k r r', (k, r) ∈ plan p f → (k, r') ∈ plan p' f →
      m.MovesOutcome (ask k r) (ask' k r')) :
    m.MovesInquiry (collect fs refused name ask p f) (collect fs' refused name ask' p' f) ∧
      (refused (f.exclude ++ p.excludes) = none → (∀ k, ∃ n, name k = .ok n) →
        ∃ c c', (collect fs refused name ask p f).result = .ok c ∧
          (collect fs' refused name ask' p' f).result = .ok c') ∧
      ∀ c c', (collect fs refused name ask p f).result = .ok c →
        (collect fs' refused name ask' p' f).result = .ok c' →
        ∀ mode,
          m.MovesView (.arrange c.problems mode p.root) (.arrange c'.problems mode p'.root) := by
  have hinquiry := hp.collect hroot hroot' refused name f hask
  refine ⟨hinquiry, ?_, ?_⟩
  · intro husable hname
    obtain ⟨c, hc⟩ := exists_collection hroot husable hname ask
    rw [hp.excludes_eq] at husable
    obtain ⟨c', hc'⟩ := exists_collection hroot' husable hname ask'
    exact ⟨c, c', hc, hc'⟩
  · intro c c' hc hc' mode
    have hresult := hinquiry.result
    rw [hc, hc'] at hresult
    cases hresult with
    | ok hcollection =>
      rw [hp.root, hp.root']
      exact movesView_arrange hcollection.problems mode

/-- A workspace moves from the root directory to a directory whose name is one of those that are
left out.  One file is written with its root and behind a `..`, the other one without it. -/
theorem collect_arrange_moved_dist :
    let m : Relocation := ⟨⟨"/"⟩, ⟨"/a/dist"⟩, rfl, rfl⟩
    let fs : FileSystem := ⟨fun _ => .ok .directory⟩
    let p : Project := .bare ⟨"/"⟩
    let p' : Project := .bare ⟨"/a/dist"⟩
    let finding (message : String) : Finding :=
      ⟨⟨1, 1⟩, none, .one, .error, message, none, none⟩
    let found := (Findings.empty.append ⟨"./y.ts"⟩ [finding "second"]).append
      ⟨"/src/../x.ts"⟩ [finding "first"]
    let found' := (Findings.empty.append ⟨"/a/dist//src/../x.ts"⟩ [finding "first"]).append
      ⟨".//y.ts"⟩ [finding "second"]
    let f : Filters := ⟨true, true, true, true, [".ts"], ["**/dist/**"], .workspace⟩
    let scan := collect fs Exclude.noLimit (fun _ => .ok "lint") (fun _ _ => .found found) p f
    let scan' := collect fs Exclude.noLimit (fun _ => .ok "lint") (fun _ _ => .found found') p' f
    let files (q : Inquiry) : Option (List (String × String)) :=
      q.result.toOption.map fun c => c.problems.map fun x => (x.file.text, x.message)
    m.MovesProject p p' ∧ fs.isDirectory p.root = true ∧ fs.isDirectory p'.root = true ∧
      m.MovesFindings found found' ∧ m.MovesInquiry scan scan' ∧
      files scan = some [("/src/../x.ts", "first"), ("/./y.ts", "second")] ∧
      files scan' = some [("/a/dist//src/../x.ts", "first"), ("/a/dist/.//y.ts", "second")] ∧
      ∃ c c', scan.result = .ok c ∧ scan'.result = .ok c' ∧
        m.MovesView (.arrange c.problems .both p.root) (.arrange c'.problems .both p'.root) := by
  intro m fs p p' finding found found' f scan scan' files
  have hproject : m.MovesProject p p' := ⟨rfl, rfl, rfl, rfl⟩
  have hfirst : m.MovesEntry (⟨"/src/../x.ts"⟩, [finding "first"])
      (⟨"/a/dist//src/../x.ts"⟩, [finding "first"]) :=
    ⟨.rooted ⟨⟨"src/../x.ts"⟩, by decide, by decide, by decide⟩, rfl⟩
  have hsecond : m.MovesEntry (⟨"./y.ts"⟩, [finding "second"])
      (⟨".//y.ts"⟩, [finding "second"]) :=
    ⟨.relative (by decide) (by decide), rfl⟩
  have hentries : found.files.entries =
      [(⟨"/src/../x.ts"⟩, [finding "first"]), (⟨"./y.ts"⟩, [finding "second"])] := by
    decide
  have hentries' : found'.files.entries =
      [(⟨"/a/dist//src/../x.ts"⟩, [finding "first"]), (⟨".//y.ts"⟩, [finding "second"])] := by
    decide
  have hfound : m.MovesFindings found found' := by
    refine ⟨?_, ?_, rfl⟩
    · rw [hentries, hentries']
      intro e he
      rcases List.mem_pair.1 he with rfl | rfl
      · exact ⟨_, .head _, hfirst⟩
      · exact ⟨_, .tail _ (.head _), hsecond⟩
    · rw [hentries, hentries']
      intro e' he'
      rcases List.mem_pair.1 he' with rfl | rfl
      · exact ⟨_, .head _, hfirst⟩
      · exact ⟨_, .tail _ (.head _), hsecond⟩
  obtain ⟨hinquiry, hok, hviews⟩ :=
    collect_arrange_moved m fs fs Exclude.noLimit (fun _ => .ok "lint") (fun _ _ => .found found)
      (fun _ _ => .found found') p p' f hproject rfl rfl fun _ _ _ _ _ => .found hfound
  obtain ⟨c, c', hc, hc'⟩ := hok rfl fun _ => ⟨_, rfl⟩
  exact ⟨hproject, rfl, rfl, hfound, hinquiry, by decide +kernel, by decide +kernel,
    c, c', hc, hc', hviews c c' hc hc' .both⟩

end Relocation

end ProblemBoard
