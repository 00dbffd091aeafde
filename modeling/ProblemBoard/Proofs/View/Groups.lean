import ProblemBoard.View.Grouping

/-!
# Groups by a key

`Grouping.collect` goes through the problems once and puts each into the group with its key.
`Groups` says what comes of it: no key has two groups, a group holds the problems with its key
in the order in which they came, and together the groups hold every problem as often as it
came.  One more problem keeps that, so the whole list does, and it does not depend on the order
in which the groups stand.
-/

namespace ProblemBoard.Grouping

variable {κ : Type} {same : κ → κ → Bool} {key : Problem → κ}
variable {ps : List Problem} {gs gs' : List (κ × List Problem)}

/-- The groups of problems by a key, in any order. -/
structure Groups (same : κ → κ → Bool) (key : Problem → κ) (ps : List Problem)
    (gs : List (κ × List Problem)) : Prop where
  /-- No key has two groups. -/
  distinct : (gs.map Prod.fst).Pairwise fun k l => same k l = false
  /-- A group holds the problems with its key. -/
  members : ∀ g ∈ gs, g.2 = ps.filter fun p => same g.1 (key p)
  /-- The key of a group is that of its first problem. -/
  first : ∀ g ∈ gs, g.2.head?.map key = some g.1
  /-- The groups hold every problem once. -/
  complete : (gs.flatMap Prod.snd).Perm ps

/-! ## One more problem -/

/-- A new member joins the first group with its key, or opens a group at the end. -/
theorem addMember_cases (same : κ → κ → Bool) (k : κ) (p : Problem)
    (gs : List (κ × List Problem)) :
    (∃ before g after, gs = before ++ g :: after ∧ same g.1 k = true ∧
        addMember same k p gs = before ++ (g.1, g.2 ++ [p]) :: after) ∨
      ((∀ g ∈ gs, same g.1 k = false) ∧ addMember same k p gs = gs ++ [(k, [p])]) := by
  induction gs with
  | nil => exact .inr ⟨nofun, rfl⟩
  | cons g gs ih =>
    unfold addMember
    cases hg : same g.1 k with
    | true => exact .inl ⟨[], g, gs, rfl, hg, rfl⟩
    | false =>
      rcases ih with ⟨before, h, after, rfl, hh, he⟩ | ⟨hn, he⟩
      · exact .inl ⟨g :: before, h, after, rfl, hh, congrArg (g :: ·) he⟩
      · refine .inr ⟨?_, congrArg (g :: ·) he⟩
        intro h hh
        rcases List.mem_cons.1 hh with rfl | hh
        · exact hg
        · exact hn h hh

/-- A key that belongs to one group belongs to no other. -/
theorem Groups.not_same_of_other {before after : List (κ × List Problem)} {g : κ × List Problem}
    {k : κ} (hs : Equivalence fun a b => same a b = true)
    (h : Groups same key ps (before ++ g :: after)) (hg : same g.1 k = true) :
    ∀ g' ∈ before ++ after, same g'.1 k = false := by
  have hd := h.distinct
  rw [List.map_append, List.map_cons] at hd
  obtain ⟨-, hafter, hbefore⟩ := List.pairwise_append.1 hd
  intro g' hg'
  apply Bool.eq_false_iff.2
  intro hk
  have hsame : same g'.1 g.1 = true := hs.trans hk (hs.symm hg)
  rcases List.mem_append.1 hg' with hb | ha
  · have hn := hbefore g'.1 (List.mem_map_of_mem hb) g.1 (.head _)
    exact Bool.eq_false_iff.1 hn hsame
  · have hn := (List.pairwise_cons.1 hafter).1 g'.1 (List.mem_map_of_mem ha)
    exact Bool.eq_false_iff.1 hn (hs.symm hsame)

theorem Groups.join {before after : List (κ × List Problem)} {g : κ × List Problem} {p : Problem}
    (hs : Equivalence fun a b => same a b = true)
    (h : Groups same key ps (before ++ g :: after)) (hg : same g.1 (key p) = true) :
    Groups same key (ps ++ [p]) (before ++ (g.1, g.2 ++ [p]) :: after) := by
  have hother := h.not_same_of_other hs hg
  obtain ⟨hd, hm, hf, hc⟩ := h
  have hcases : ∀ k ∈ before ++ (g.1, g.2 ++ [p]) :: after,
      k = (g.1, g.2 ++ [p]) ∨ k ∈ before ++ after := by
    intro k hk
    simpa [or_left_comm] using hk
  have hold : ∀ k ∈ before ++ after, k ∈ before ++ g :: after := by
    intro k hk
    rw [List.mem_append, List.mem_cons]
    exact (List.mem_append.1 hk).imp_right .inr
  have hgm : g ∈ before ++ g :: after := List.mem_append_right _ (.head _)
  refine ⟨?_, ?_, ?_, ?_⟩
  · simpa using hd
  · intro k hk
    rw [List.filter_append]
    rcases hcases k hk with rfl | hk
    · simp [hg, hm g hgm]
    · simp [hother k hk, ← hm k (hold k hk)]
  · intro k hk
    rcases hcases k hk with rfl | hk
    · have hgf := hf g hgm
      rw [List.head?_append]
      cases hh : g.2.head? with
      | none => simp [hh] at hgf
      | some q => simpa [hh] using hgf
    · exact hf k (hold k hk)
  · have hmove : ((before ++ (g.1, g.2 ++ [p]) :: after).flatMap Prod.snd).Perm
        ((before ++ g :: after).flatMap Prod.snd ++ [p]) := by
      simp only [List.flatMap_append, List.flatMap_cons, List.append_assoc]
      exact (List.perm_append_comm.append_left _).append_left _
    exact hmove.trans (hc.append_right _)

theorem Groups.openGroup {p : Problem} (hs : Equivalence fun a b => same a b = true)
    (h : Groups same key ps gs) (hn : ∀ g ∈ gs, same g.1 (key p) = false) :
    Groups same key (ps ++ [p]) (gs ++ [(key p, [p])]) := by
  obtain ⟨hd, hm, hf, hc⟩ := h
  refine ⟨?_, ?_, ?_, ?_⟩
  · rw [List.map_append]
    refine List.pairwise_append.2 ⟨hd, List.pairwise_singleton _ _, ?_⟩
    intro k hk l hl
    obtain ⟨g, hg, rfl⟩ := List.mem_map.1 hk
    rw [List.mem_singleton.1 hl]
    exact hn g hg
  · intro k hk
    rw [List.filter_append]
    rcases List.mem_append.1 hk with hk | hk
    · simp [hn k hk, ← hm k hk]
    · rw [List.mem_singleton.1 hk]
      have hnone : (ps.filter fun q => same (key p) (key q)) = [] := by
        apply List.filter_eq_nil_iff.2
        intro q hq hpq
        obtain ⟨g, hg, hqg⟩ := List.mem_flatMap.1 (hc.mem_iff.2 hq)
        rw [hm g hg] at hqg
        have hgq : same g.1 (key q) = true := (List.mem_filter.1 hqg).2
        exact Bool.eq_false_iff.1 (hn g hg) (hs.trans hgq (hs.symm hpq))
      have hself : same (key p) (key p) = true := hs.refl (key p)
      simp [hnone, hself]
  · intro k hk
    rcases List.mem_append.1 hk with hk | hk
    · exact hf k hk
    · rw [List.mem_singleton.1 hk]
      rfl
  · rw [List.flatMap_append]
    exact hc.append_right _

theorem Groups.addMember (hs : Equivalence fun a b => same a b = true)
    (h : Groups same key ps gs) (p : Problem) :
    Groups same key (ps ++ [p]) (addMember same (key p) p gs) := by
  rcases addMember_cases same (key p) p gs with ⟨before, g, after, rfl, hg, he⟩ | ⟨hn, he⟩
  · rw [he]
    exact h.join hs hg
  · rw [he]
    exact h.openGroup hs hn

/-! ## All problems -/

theorem groups_nil (same : κ → κ → Bool) (key : Problem → κ) : Groups same key [] [] :=
  ⟨.nil, nofun, nofun, .nil⟩

theorem groups_collect (hs : Equivalence fun a b => same a b = true) (key : Problem → κ)
    (ps : List Problem) : Groups same key ps (collect same key ps) := by
  have hrun : ∀ qs gs, Groups same key qs gs →
      Groups same key (qs ++ ps)
        (ps.foldl (fun groups p => Grouping.addMember same (key p) p groups) gs) := by
    induction ps with
    | nil =>
      intro qs gs h
      rwa [List.append_nil]
    | cons p ps ih =>
      intro qs gs h
      have hstep := ih (qs ++ [p]) _ (h.addMember hs p)
      rwa [List.append_assoc] at hstep
  exact hrun [] [] (groups_nil same key)

/-- In whatever order groups stand, they are groups of the same problems. -/
theorem Groups.perm (hs : Equivalence fun a b => same a b = true) (h : Groups same key ps gs)
    (hp : gs'.Perm gs) : Groups same key ps gs' where
  distinct := by
    refine ((hp.map Prod.fst).pairwise_iff ?_).2 h.distinct
    intro a b hab
    apply Bool.eq_false_iff.2
    intro hba
    exact Bool.eq_false_iff.1 hab (hs.symm hba)
  members := fun g hg => h.members g (hp.mem_iff.1 hg)
  first := fun g hg => h.first g (hp.mem_iff.1 hg)
  complete := (hp.flatMap_right _).trans h.complete

/-- Every problem has a group with its key. -/
theorem Groups.exists_group (h : Groups same key ps gs) {p : Problem} (hp : p ∈ ps) :
    ∃ g ∈ gs, same g.1 (key p) = true := by
  obtain ⟨g, hg, hpg⟩ := List.mem_flatMap.1 (h.complete.mem_iff.2 hp)
  rw [h.members g hg] at hpg
  exact ⟨g, hg, (List.mem_filter.1 hpg).2⟩

/-- The key of a group is that of a problem. -/
theorem Groups.exists_problem (h : Groups same key ps gs) {g : κ × List Problem} (hg : g ∈ gs) :
    ∃ p ∈ ps, key p = g.1 := by
  obtain ⟨p, hp, hk⟩ := Option.map_eq_some_iff.1 (h.first g hg)
  have hmem : p ∈ g.2 := List.mem_of_head? hp
  rw [h.members g hg] at hmem
  exact ⟨p, (List.mem_filter.1 hmem).1, hk⟩

end ProblemBoard.Grouping
