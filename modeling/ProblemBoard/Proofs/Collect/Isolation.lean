import ProblemBoard.Proofs.Collect.Shares

/-!
# Isolation of producers

A producer that fails or panics has the share of one that finds nothing, but for the failure it
leaves.  So its outcome takes nothing away from the others and keeps none of them from being
asked.
-/

namespace ProblemBoard

namespace Collect

/-! ## Outcomes put in the place of others -/

/-- What comes of asking when one producer does something else. -/
def instead (ask : ProducerKind → Request → Outcome) (k : ProducerKind) (o : Outcome) :
    ProducerKind → Request → Outcome :=
  fun j r => if j = k then o else ask j r

/-- No producer is asked twice. -/
theorem plan_nodup (p : Project) (f : Filters) : ((plan p f).map Prod.fst).Nodup := by
  unfold plan
  cases f.scanMode with
  | openFiles => simp
  | workspace => cases f.typeCheck <;> cases p.typeCheckConfig <;> cases f.lint <;> simp

section
variable {i : Intake} {name : ProducerKind → String} {ask : ProducerKind → Request → Outcome}
variable {steps earlier later : List (ProducerKind × Request)} {k : ProducerKind} {r : Request}

theorem shares_instead_of_not_mem (hk : k ∉ steps.map Prod.fst) (o : Outcome) :
    shares i name (instead ask k o) steps = shares i name ask steps := by
  apply shares_congr
  intro s hs
  apply if_neg
  rintro rfl
  exact hk (List.mem_map_of_mem hs)

/-- Another outcome of a producer takes the place of its share and leaves those of the others. -/
theorem shares_instead (hn : ((earlier ++ (k, r) :: later).map Prod.fst).Nodup) (o : Outcome) :
    shares i name (instead ask k o) (earlier ++ (k, r) :: later) =
      shares i name ask earlier ++ share i (name k) o ++ shares i name ask later := by
  rw [List.map_append, List.map_cons, List.nodup_append] at hn
  obtain ⟨-, hlater, hearlier⟩ := hn
  have hk : instead ask k o k r = o := if_pos rfl
  rw [shares_append, shares, hk, Collection.append_assoc,
    shares_instead_of_not_mem (fun hmem => hearlier k hmem k (.head _) rfl),
    shares_instead_of_not_mem (List.nodup_cons.1 hlater).1]

end

/-! ## Whole collections -/

section
variable (fs : FileSystem) (refused : List String → Option String)
variable (name : ProducerKind → String) (p : Project) (f : Filters)

/-- Whether anything is collected depends on the workspace root and the patterns, and not on what
the producers do.  When something is, all producers of the plan have been asked, and the failures
are those of the ones that failed or panicked, in the order in which they were asked.  When one of
them fails or panics instead, the problems are those collected when it finds nothing, which are
those of the others in their order; the others are asked the same; and its one failure stands in
its place among the failures. -/
theorem failures_isolated :
    (∀ ask, (∃ c, (collect fs refused (fun k => .ok (name k)) ask p f).result = .ok c) ↔
        obstacle fs refused p.root (f.exclude ++ p.excludes) = none) ∧
      ∀ ask c, (collect fs refused (fun k => .ok (name k)) ask p f).result = .ok c →
        (collect fs refused (fun k => .ok (name k)) ask p f).asked = plan p f ∧
          c.failures = ((plan p f).filterMap fun s => (ask s.1 s.2).failure? (name s.1)) ∧
          ∀ k r o e, (k, r) ∈ plan p f →
            (o = .failed e ∨ ∃ message, o = .panicked message ∧
              e = .panicked (name k) (message.getD Outcome.unknownPanic)) →
            ∃ c₀ c' earlier later,
              collect fs refused (fun k => .ok (name k)) (instead ask k (.found .empty)) p f =
                  ⟨plan p f, .ok c₀⟩ ∧
                collect fs refused (fun k => .ok (name k)) (instead ask k o) p f =
                  ⟨plan p f, .ok c'⟩ ∧
                c'.problems = c₀.problems ∧ c'.global = c₀.global ∧
                plan p f = earlier ++ (k, r) :: later ∧
                c = shares (.ofProject p f) name ask earlier ++
                  share (.ofProject p f) (name k) (ask k r) ++
                  shares (.ofProject p f) name ask later ∧
                c₀ = shares (.ofProject p f) name ask earlier ++
                  shares (.ofProject p f) name ask later ∧
                c'.failures = (shares (.ofProject p f) name ask earlier).failures ++
                  e :: (shares (.ofProject p f) name ask later).failures := by
  cases hobs : obstacle fs refused p.root (f.exclude ++ p.excludes) with
  | some e =>
    simp [collect_eq, hobs]
  | none =>
    have hall : ∀ ask, collect fs refused (fun k => .ok (name k)) ask p f =
        ⟨plan p f, .ok (shares (.ofProject p f) name ask (plan p f))⟩ := by
      intro ask
      rw [collect_eq, hobs]
    refine ⟨fun ask => ?_, fun ask c hc => ?_⟩
    · rw [hall]
      exact ⟨fun _ => rfl, fun _ => ⟨_, rfl⟩⟩
    rw [hall] at hc
    obtain rfl := Except.ok.inj hc
    refine ⟨by rw [hall], failures_shares _ _ _ _, ?_⟩
    intro k r o e hk ho
    have hfail : o.failure? (name k) = some e := by
      rcases ho with rfl | ⟨message, rfl, rfl⟩ <;> rfl
    obtain ⟨earlier, later, hplan⟩ := List.append_of_mem hk
    have hnodup := plan_nodup p f
    rw [hplan] at hnodup
    refine ⟨_, _, earlier, later, hall _, hall _, ?_, ?_, hplan, ?_, ?_, ?_⟩
    all_goals rw [hplan]
    · rw [shares_instead hnodup, shares_instead hnodup, share_of_failure hfail]
      rfl
    · rw [shares_instead hnodup, shares_instead hnodup, share_of_failure hfail]
      rfl
    · rw [shares_append, shares, Collection.append_assoc]
    · rw [shares_instead hnodup, share_found_empty, Collection.append_empty]
    · rw [shares_instead hnodup, share_of_failure hfail, Collection.append_assoc]
      rfl

end

/-- The type checker panics.  The linter is asked all the same, and what it says of the program as
a whole is there beside the one failure. -/
theorem failures_isolated_panic :
    let p : Project :=
      { Project.bare ⟨"/work"⟩ with typeCheckConfig := some ⟨"/work/tsconfig.json"⟩ }
    let name : ProducerKind → String
      | .typeCheck => typeCheckName
      | .lint => lintName
      | .live => liveName
    let found (message : String) : Outcome :=
      .found (Findings.empty.addGlobal ⟨⟨1, 1⟩, none, .one, .error, message, none, none⟩)
    let ask : ProducerKind → Request → Outcome
      | .typeCheck, _ => found "no inputs"
      | _, _ => found "no rules"
    ∃ c c₀ c',
      (collect ⟨fun _ => .ok .directory⟩ Exclude.noLimit (fun k => .ok (name k)) ask p
        (.ofSettings .default)).result = .ok c ∧
      c.global.map Problem.message = ["no inputs", "no rules"] ∧
      (plan p (.ofSettings .default)).map Prod.fst = [.typeCheck, .lint] ∧
      collect ⟨fun _ => .ok .directory⟩ Exclude.noLimit (fun k => .ok (name k))
          (instead ask .typeCheck (.found .empty)) p (.ofSettings .default) =
        ⟨plan p (.ofSettings .default), .ok c₀⟩ ∧
      collect ⟨fun _ => .ok .directory⟩ Exclude.noLimit (fun k => .ok (name k))
          (instead ask .typeCheck (.panicked (some "out of memory"))) p (.ofSettings .default) =
        ⟨plan p (.ofSettings .default), .ok c'⟩ ∧
      c'.global = c₀.global ∧ .panicked "typecheck" "out of memory" ∈ c'.failures := by
  intro p name found ask
  obtain ⟨-, hcollected⟩ := failures_isolated ⟨fun _ => .ok .directory⟩ Exclude.noLimit name p
    (.ofSettings .default)
  obtain ⟨-, -, hreplaced⟩ := hcollected ask _ rfl
  obtain ⟨c₀, c', earlier, later, h₀, h', -, hglobal, -, -, -, hfailures⟩ :=
    hreplaced .typeCheck _ _ _ (.head _) (.inr ⟨some "out of memory", rfl, rfl⟩)
  refine ⟨_, c₀, c', rfl, rfl, rfl, h₀, h', hglobal, ?_⟩
  rw [hfailures]
  exact List.mem_append_right _ (.head _)

end Collect

end ProblemBoard
