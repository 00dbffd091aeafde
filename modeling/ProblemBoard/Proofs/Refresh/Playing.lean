import ProblemBoard.Proofs.Refresh.Resolutions
import ProblemBoard.Proofs.Refresh.Shutdown
import ProblemBoard.Refresh.Timeline

/-!
# Boards that are played

Whatever a host does with a timeline, nothing happens to the board but what can happen to it in
a life: `Played.life`.  The timeline fires no timer, finishes no scan and brings back no
resolution that is not under way, and the calls with which a host answers effects are calls like
any other.

A delivery is `Attended` by the host: batches are taken off the queue, and some of their effects
are answered with a call.  A scan on its way is either finished or goes on to wait, and then fewer
producers are left to ask.
-/

namespace ProblemBoard.Refresh

/-- A board that another one can come to. -/
def Board.Reaches (b₀ b : Board) : Prop := ∃ c, Life b₀ c b

/-! ## Calls -/

section
variable {b₀ b : Board} {s : Step} {q : Resolution}

theorem Board.Admits.restore (ha : b.Admits s) (c : Cancelled) : (b.restore c).Admits s := by
  cases s with
  | called d => cases d <;> exact ha
  | timerFired g => trivial
  | scanFinished id result =>
    obtain ⟨s, hs, hid, hresult⟩ := ha
    exact ⟨s, List.mem_append_right _ hs, hid, hresult⟩
  | resolutionLanded r project => exact ha

theorem Board.Reaches.step (hb : b₀.Reaches b) (ha : b.Admits s) : b₀.Reaches (b.after s) := by
  obtain ⟨c, hl⟩ := hb
  exact ⟨_, hl.step s (ha.restore c)⟩

/-- Every call can be made, a shutdown among them. -/
theorem Board.Reaches.called (hb : b₀.Reaches b) (d : Call) :
    b₀.Reaches (b.after (.called d)) := by
  cases d with
  | shutdown =>
    obtain ⟨c, hl⟩ := hb
    exact ⟨_, hl.shutdown⟩
  | _ => exact hb.step trivial

theorem Board.Reaches.run (hb : b₀.Reaches b) (d : Call) : b₀.Reaches (d.run b).1 := by
  fun_induction Call.run b d with
  | case1 b d reply => exact hb.called d
  | case2 b d rest _ ih => exact ih (hb.called d)

/-- A call takes no resolution away. -/
theorem Board.mem_resolutions_called (hq : q ∈ b.resolutions) (d : Call) :
    q ∈ (b.after (.called d)).resolutions := by
  rw [b.resolutions_after]
  exact List.mem_append_left _ hq

theorem Board.mem_resolutions_run (hq : q ∈ b.resolutions) (d : Call) :
    q ∈ (d.run b).1.resolutions := by
  fun_induction Call.run b d with
  | case1 b d reply => exact b.mem_resolutions_called hq d
  | case2 b d rest _ ih => exact ih (b.mem_resolutions_called hq d)

end

/-! ## Delivery -/

/-- What becomes of a board and of the reactions of its host while effects are delivered: effects
are taken off the queue, and some are answered with a call, which uses up a reaction. -/
inductive Attended (b : Board) (rs : List Reaction) : Board → List Reaction → Prop where
  | refl : Attended b rs b rs
  | deliver {b' : Board} {rs' : List Reaction} {rest : List Effect} {flushing : Bool} :
      Attended b rs b' rs' → rest <:+ b'.effects →
        Attended b rs { b' with effects := rest, flushing } rs'
  | react {b' : Board} {rs' others : List Reaction} (c : Call) :
      Attended b rs b' rs' → others.length < rs'.length → Attended b rs (c.run b').1 others

section
variable {b₀ b b' b'' : Board} {rs rs' rs'' : List Reaction} {q : Resolution}

theorem Attended.trans (h : Attended b rs b' rs') (h' : Attended b' rs' b'' rs'') :
    Attended b rs b'' rs'' := by
  induction h' with
  | refl => exact h
  | deliver _ hrest ih => exact ih.deliver hrest
  | react c _ hlt ih => exact ih.react c hlt

theorem Attended.reaches (h : Attended b rs b' rs') (hb : b₀.Reaches b) : b₀.Reaches b' := by
  induction h with
  | refl => exact hb
  | deliver _ hrest ih =>
    obtain ⟨c, hl⟩ := ih
    exact ⟨c, hl.deliver hrest⟩
  | react c _ _ ih => exact ih.run c

theorem Attended.mem_resolutions (h : Attended b rs b' rs') (hq : q ∈ b.resolutions) :
    q ∈ b'.resolutions := by
  induction h with
  | refl => exact hq
  | deliver _ _ ih => exact ih
  | react c _ _ ih => exact Board.mem_resolutions_run ih c

end

namespace Timeline

section
variable (t : Timeline)

theorem tell_attended (e : Effect) :
    ∃ board reactions log, t.tell e = { t with board, reactions, log } ∧
      Attended t.board t.reactions board reactions := by
  cases hr : t.reactions.find? (·.trigger = e.kind) with
  | none => exact ⟨_, _, _, tell_of_none hr, .refl⟩
  | some r => exact ⟨_, _, _, tell_of_some hr, Attended.refl.react r.call (length_eraseP_lt hr)⟩

theorem takeBatch_attended (rs : List Reaction) : Attended t.board rs t.board.takeBatch.1 rs := by
  obtain ⟨rest, flushing, hrest, he⟩ := t.board.takeBatch_frame
  rw [he]
  exact Attended.refl.deliver hrest

theorem pump_attended (batch : List Effect) :
    ∃ board reactions log, t.pump batch = { t with board, reactions, log } ∧
      Attended t.board t.reactions board reactions := by
  fun_induction pump t batch with
  | case1 t board hq =>
    have ht := t.takeBatch_attended t.reactions
    rw [hq] at ht
    exact ⟨_, _, _, rfl, ht⟩
  | case2 t board e es hq ih =>
    have ht := t.takeBatch_attended t.reactions
    rw [hq] at ht
    obtain ⟨b, rs, log, he, ha⟩ := ih
    exact ⟨b, rs, log, he, ht.trans ha⟩
  | case3 t e rest ih =>
    obtain ⟨b, rs, log, he, ha⟩ := t.tell_attended e
    obtain ⟨b', rs', log', he', ha'⟩ := ih
    rw [he] at he' ha'
    exact ⟨b', rs', log', (congrArg (pump · rest) he).trans he', ha.trans ha'⟩

theorem flush_attended :
    ∃ board reactions log, t.flush = { t with board, reactions, log } ∧
      Attended t.board t.reactions board reactions := by
  obtain ⟨flushing, hb⟩ := t.board.beginDelivery_frame
  unfold flush
  split
  · next board hd =>
    obtain ⟨b, rs, log, he, ha⟩ := pump_attended { t with board } []
    have hb : board = _ := (congrArg Prod.fst hd).symm.trans hb
    have hbegin : Attended t.board t.reactions board t.reactions :=
      hb ▸ Attended.refl.deliver (List.suffix_refl _)
    exact ⟨b, rs, log, he, hbegin.trans ha⟩
  · exact ⟨_, _, _, rfl, .refl⟩

/-- A step touches the board, the reactions and the log only. -/
theorem act_attended (s : Step) :
    ∃ board reactions log, t.act s = { t with board, reactions, log } ∧
      Attended (t.board.after s) t.reactions board reactions :=
  flush_attended { t with board := t.board.after s }

end

section
variable {b₀ : Board} {t : Timeline} {s : Step}

theorem act_reaches (hb : b₀.Reaches (t.board.after s)) : b₀.Reaches (t.act s).board := by
  obtain ⟨b, rs, log, he, ha⟩ := t.act_attended s
  rw [he]
  exact ha.reaches hb

theorem call_reaches (hb : b₀.Reaches t.board) (c : Call) : b₀.Reaches (t.call c).1.board := by
  fun_induction call t c with
  | case1 t c acted reply => exact act_reaches (hb.called c)
  | case2 t c acted rest _ ih => exact ih (act_reaches (hb.called c))

end

/-! ## Scans on their way -/

end Timeline

/-- How often a scan still goes on at most: once for what it waits for and once for every producer
that is left. -/
def Progress.resumptions : Progress → Nat
  | .ready => 3
  | .waiting _ _ rest _ => rest.length + 1

/-- A scan asks two producers at most. -/
theorem length_plan_le (p : Project) (f : Filters) : (Collect.plan p f).length ≤ 2 := by
  unfold Collect.plan
  split
  · simp
  · split <;> cases f.lint <;> simp

namespace Timeline

/-- A scan that asks its producers finishes or waits for one of them. -/
theorem proceed_cases (t : Timeline) (s : Scan) (collected : Collection)
    (left : List (ProducerKind × Request)) :
    (∃ log result, t.proceed s collected left = { t with log }.finish s result) ∨
      ∃ log due k rest found, rest.length < left.length ∧
        t.proceed s collected left = { t with log }.note s (.waiting due k rest found) := by
  induction left generalizing t collected with
  | nil => exact .inl ⟨_, _, rfl⟩
  | cons next rest ih =>
    obtain ⟨k, r⟩ := next
    have hasked : ∃ log, (if k = .live then t else t.record (.asked (Stage.label k) r)) =
        { t with log } := by
      split <;> exact ⟨_, rfl⟩
    obtain ⟨log, hasked⟩ := hasked
    unfold proceed
    dsimp only
    rw [hasked]
    split
    · split
      · next found _ =>
        refine (ih { t with log } found).imp id ?_
        rintro ⟨log, due, k, others, found, hlt, he⟩
        exact ⟨log, due, k, others, found, Nat.lt_succ_of_lt hlt, he⟩
      · exact .inl ⟨_, _, rfl⟩
    · exact .inr ⟨_, _, _, rest, _, Nat.lt_succ_self _, rfl⟩

/-- A scan that goes on finishes, or goes on less often from then on. -/
theorem resume_cases (t : Timeline) (f : Flight) :
    (∃ log result, t.resume f = { t with log }.finish f.scan result) ∨
      ∃ log p, p.resumptions < f.progress.resumptions ∧
        t.resume f = { t with log }.note f.scan p := by
  obtain ⟨s, p⟩ := f
  cases p with
  | ready =>
    unfold resume
    dsimp only
    split
    · refine (t.proceed_cases s .empty _).imp id ?_
      rintro ⟨log, due, k, rest, found, hlt, he⟩
      have hplan := length_plan_le s.project s.filters
      exact ⟨log, .waiting due k rest found, Nat.succ_lt_succ (Nat.lt_of_lt_of_le hlt hplan), he⟩
    · exact .inl ⟨_, _, rfl⟩
  | waiting due k left collected =>
    unfold resume
    dsimp only
    split
    · refine (t.proceed_cases s _ left).imp id ?_
      rintro ⟨log, due, k, rest, found, hlt, he⟩
      exact ⟨log, .waiting due k rest found, Nat.succ_lt_succ hlt, he⟩
    · exact .inl ⟨_, _, rfl⟩

/-! ## Pieces of work -/

section
variable {t : Timeline}

/-- A resolution that comes back takes no later one away. -/
theorem mem_resolutions_land {q r : Resolution} (hq : q ∈ t.board.resolutions)
    (hlt : r.revision < q.revision) : q ∈ (t.land r).board.resolutions := by
  have hstays (project : Project) :
      q ∈ (t.board.after (.resolutionLanded r project)).resolutions := by
    rw [t.board.resolutions_after]
    refine List.mem_append_left _ (List.mem_filter.2 ⟨hq, ?_⟩)
    exact bne_iff_ne.2 (Nat.ne_of_gt hlt)
  obtain ⟨b, rs, log, he, ha⟩ := t.act_attended
    (.resolutionLanded r (Project.resolve t.stage.fileSystem r.root r.overrides))
  rw [land, he]
  exact ha.mem_resolutions (hstays _)

/-- Resolutions that come back one after another come back while they are under way. -/
theorem foldl_land {P : Timeline → Prop} {rs : List Resolution}
    (hland : ∀ t r, P t → r ∈ t.board.resolutions → P (t.land r))
    (hrs : ∀ r ∈ rs, r ∈ t.board.resolutions)
    (hrising : rs.Pairwise fun q r => q.revision < r.revision) (ht : P t) :
    P (rs.foldl land t) := by
  induction rs generalizing t with
  | nil => exact ht
  | cons r rs ih =>
    obtain ⟨hlt, hrising⟩ := List.pairwise_cons.1 hrising
    have hstay : ∀ q ∈ rs, q ∈ (t.land r).board.resolutions :=
      fun q hq => mem_resolutions_land (hrs q (.tail _ hq)) (hlt q hq)
    exact ih hstay hrising (hland t r ht (hrs r (.head _)))

variable {b₀ : Board} {project : Project} {settings : Settings}

theorem land_reaches (hb : b₀.Reaches t.board) {r : Resolution} (hr : r ∈ t.board.resolutions) :
    b₀.Reaches (t.land r).board :=
  act_reaches (hb.step ⟨hr, _, rfl⟩)

theorem finish_reaches (hb : b₀.Reaches t.board) {s : Scan} (hs : s ∈ t.board.scans)
    (result : Except ScanError Collection) : b₀.Reaches (t.finish s result).board := by
  refine act_reaches (hb.step ⟨s, hs, rfl, fun r hr => ?_⟩)
  cases result with
  | error e => cases hr
  | ok c => exact ⟨c, (Except.ok.inj hr).symm⟩

theorem resume_reaches (hb : b₀.Reaches t.board) {f : Flight} (hf : f.scan ∈ t.board.scans) :
    b₀.Reaches (t.resume f).board := by
  rcases t.resume_cases f with ⟨log, result, he⟩ | ⟨log, p, -, he⟩
  · rw [he]
    exact finish_reaches (t := { t with log }) hb hf result
  · rw [he]
    exact hb

/-- After it was brought up to date, a timeline has the flights of the scans that run. -/
theorem scan_mem_of_mem_sync {f : Flight} (hf : f ∈ t.sync.flights) : f.scan ∈ t.board.scans := by
  obtain ⟨s, hs, rfl⟩ := List.mem_map.1 hf
  exact hs

theorem resolutions_rising (hb : (Board.start project settings).Reaches t.board) :
    t.board.resolutions.Pairwise fun q r => q.revision < r.revision := by
  obtain ⟨c, hl⟩ := hb
  obtain ⟨h, hr⟩ := hl.run
  exact hr.numbered.rising

/-- What a piece of work is: a scan goes on, a timer fires, resolutions come back, or nothing is
left to do now and the clock moves on. -/
theorem work_cases {t' : Timeline} {target : Nat} (hw : t.work? target = some t') :
    (∃ f ∈ t.flights, t' = t.resume f) ∨
      (∃ a, t.alarm = some a ∧ t' = t.act (.timerFired a.generation)) ∨
      (t.board.resolutions ≠ [] ∧ t' = t.board.resolutions.foldl land t) ∨
      (t.readyFlight = none ∧ t.dueAlarm = none ∧ t.board.resolutions = []) ∧
        ∃ due, t.dues.min? = some due ∧ due ≤ target ∧ t' = { t with now := due } := by
  unfold work? at hw
  split at hw
  · next f hf => exact .inl ⟨f, List.mem_of_find?_eq_some hf, (Option.some.inj hw).symm⟩
  · next a _ ha =>
    exact .inr (.inl ⟨a, (Option.filter_eq_some_iff.1 ha).1, (Option.some.inj hw).symm⟩)
  · next r rs _ _ hrs =>
    refine .inr (.inr (.inl ⟨hrs ▸ List.cons_ne_nil r rs, ?_⟩))
    rw [hrs]
    exact (Option.some.inj hw).symm
  · next hf ha hrs =>
    obtain ⟨due, hdue, he⟩ := Option.map_eq_some_iff.1 hw
    obtain ⟨hdue, hle⟩ := Option.filter_eq_some_iff.1 hdue
    exact .inr (.inr (.inr ⟨⟨hf, ha, hrs⟩, due, hdue, of_decide_eq_true hle, he.symm⟩))

/-- A piece of work is done on what is under way. -/
theorem work_reaches {t' : Timeline} {target : Nat}
    (hb : (Board.start project settings).Reaches t.board) (hw : t.sync.work? target = some t') :
    (Board.start project settings).Reaches t'.board := by
  obtain ⟨f, hf, rfl⟩ | ⟨a, -, rfl⟩ | ⟨-, rfl⟩ | ⟨-, due, -, -, rfl⟩ := work_cases hw
  · have hscan : f.scan ∈ t.board.scans := scan_mem_of_mem_sync hf
    exact resume_reaches (t := t.sync) hb hscan
  · exact act_reaches (hb.step trivial)
  · exact foldl_land (P := fun t => (Board.start project settings).Reaches t.board)
      (fun t r ht hr => land_reaches ht hr) (fun r hr => hr) (resolutions_rising hb) hb
  · exact hb

theorem workUntil_reaches (hb : (Board.start project settings).Reaches t.board)
    (target fuel : Nat) :
    (Board.start project settings).Reaches (workUntil target fuel t).board := by
  induction fuel generalizing t with
  | zero => exact hb
  | succ fuel ih =>
    unfold workUntil
    split
    · next hw => exact ih (work_reaches hb hw)
    · exact hb

end

end Timeline

/-! ## What a host does -/

/-- What a host does with a timeline: it makes calls, moves the clock, reads the log, and changes
what the producers and the files are like. -/
inductive Played (t₀ : Timeline) : Timeline → Prop where
  | refl : Played t₀ t₀
  | call {t : Timeline} (c : Call) : Played t₀ t → Played t₀ (t.call c).1
  | advance {t : Timeline} (ms : Nat) : Played t₀ t → Played t₀ (t.advance ms)
  | takeLog {t : Timeline} : Played t₀ t → Played t₀ t.takeLog.1
  | restage {t : Timeline} (stage : Stage) : Played t₀ t → Played t₀ { t with stage }

/-- Whatever a host does with a timeline, its board leads a life. -/
theorem Played.life {project : Project} {settings : Settings} {stage : Stage}
    {rs : List Reaction} {t : Timeline}
    (hp : Played (.start (.start project settings) stage rs) t) :
    ∃ c, Life (.start project settings) c t.board := by
  induction hp with
  | refl => exact ⟨_, .refl⟩
  | call c _ ih => exact Timeline.call_reaches ih c
  | advance ms _ ih => exact Timeline.workUntil_reaches ih _ _
  | takeLog _ ih => exact ih
  | restage stage _ ih => exact ih

end ProblemBoard.Refresh
