import ProblemBoard.Proofs.Refresh.Demand

/-!
# Requests coalesce

A machine on its own may be told anything in any order: requests, pauses, timers of any number
and as often as anyone likes, scans that finish, other times to wait.  Its *beats* are what it
meets with, each with the machine it finds.

A demand pays for one scan.  What is paid and not yet used is what the machine owes, and that is
one scan at most, however many demands came: `Machine.starts_le` says that the scans that start
never outnumber the demands and what was owed before.  Everything else follows.  Behind a start
nothing is owed, so a demand comes before the next one; and what arrives while a scan runs is
owed as one scan.
-/

namespace ProblemBoard.Refresh

/-! ## Beats -/

/-- What a machine can meet with. -/
inductive Input where
  | told (x : Signal)
  /-- Other times to wait are set. -/
  | timed (t : Timings)

/-- A machine and what it meets with. -/
structure Beat where
  machine : Machine
  input : Input

def Beat.response (k : Beat) : Machine × Action :=
  match k.input with
  | .told x => k.machine.receive x
  | .timed t => (k.machine.setTimings t, .none)

/-- Whether a scan starts. -/
def Beat.starts (k : Beat) : Bool := k.response.2 = .startScan

/-- Whether a demand is made that is heard. -/
def Beat.demands (k : Beat) : Bool :=
  match k.input with
  | .told x => x.opens k.machine
  | .timed _ => false

/-- The beats of a machine that meets with one thing after another. -/
def Machine.beats (m : Machine) : List Input → List Beat
  | [] => []
  | x :: xs => ⟨m, x⟩ :: (Beat.response ⟨m, x⟩).1.beats xs

/-- The machine behind its beats. -/
def Machine.past (m : Machine) : List Input → Machine
  | [] => m
  | x :: xs => (Beat.response ⟨m, x⟩).1.past xs

@[simp] theorem Machine.beats_append (m : Machine) (xs ys : List Input) :
    m.beats (xs ++ ys) = m.beats xs ++ (m.past xs).beats ys := by
  induction xs generalizing m with
  | nil => rfl
  | cons x xs ih => simp [beats, past, ih]

/-- Beats that are cut in two are those of two stretches. -/
theorem Machine.beats_eq_append {m : Machine} {xs : List Input} {before after : List Beat}
    (h : m.beats xs = before ++ after) :
    ∃ ys zs, xs = ys ++ zs ∧ before = m.beats ys ∧ after = (m.past ys).beats zs := by
  induction before generalizing m xs with
  | nil => exact ⟨[], xs, rfl, rfl, h.symm⟩
  | cons k before ih =>
    cases xs with
    | nil => cases h
    | cons x xs =>
      obtain ⟨rfl, hrest⟩ := List.cons.inj h
      obtain ⟨ys, zs, rfl, rfl, rfl⟩ := ih hrest
      exact ⟨x :: ys, zs, rfl, rfl, rfl⟩

theorem Machine.past_of_getLast? {m : Machine} {xs : List Input} {k : Beat}
    (h : (m.beats xs).getLast? = some k) : m.past xs = k.response.1 := by
  induction xs generalizing m with
  | nil => cases h
  | cons x xs ih =>
    cases xs with
    | nil =>
      obtain rfl := Option.some.inj h
      rfl
    | cons y ys =>
      rw [beats, beats, List.getLast?_cons_cons] at h
      exact ih h

/-! ## What is owed -/

/-- A request is remembered only while a scan runs. -/
def Machine.Tidy (m : Machine) : Prop := m.pending = true → m.phase = .scanning

theorem Turn.tidy {m m' : Machine} {x : Signal} {a : Action} (h : Turn m x m' a)
    (ht : m.Tidy) : m'.Tidy := by
  cases h with
  | mutedRefresh | mutedImmediate | stale | still => exact ht
  | queueRefresh _ hs | queueImmediate _ hs | resumeScanning _ hs => exact fun _ => hs
  | arm _ hs => exact fun hp => absurd (ht hp) hs
  | start | fire | resume => exact fun _ => rfl
  | pauseIdle | pauseDebouncing | pauseScanning | settle | followUp =>
    intro hp
    cases hp

theorem Beat.tidy {k : Beat} (ht : k.machine.Tidy) : k.response.1.Tidy := by
  obtain ⟨m, x⟩ := k
  cases x with
  | told x => exact (m.receive_turn x).tidy ht
  | timed t => exact ht

theorem Machine.Tidy.past {m : Machine} (ht : m.Tidy) (xs : List Input) : (m.past xs).Tidy := by
  induction xs generalizing m with
  | nil => exact ht
  | cons x xs ih => exact ih (Beat.tidy (k := ⟨m, x⟩) ht)

theorem Machine.Tidy.beats {m : Machine} (ht : m.Tidy) {xs : List Input} {k : Beat}
    (hk : k ∈ m.beats xs) : k.machine.Tidy := by
  induction xs generalizing m with
  | nil => cases hk
  | cons x xs ih =>
    rcases List.mem_cons.1 hk with rfl | hk
    · exact ht
    · exact ih (Beat.tidy (k := ⟨m, x⟩) ht) hk

instance (c : Control) : Decidable (Owed c) :=
  inferInstanceAs (Decidable (_ ∧ (_ ∨ _ ∧ _)))

/-- The number of scans a machine owes. -/
def Machine.owing (m : Machine) : Nat := if Owed m.control then 1 else 0

theorem Machine.owing_le (m : Machine) : m.owing ≤ 1 := by
  unfold owing
  split <;> omega

theorem Machine.owing_of_not_owed {m : Machine} (h : ¬Owed m.control) : m.owing = 0 := if_neg h

/-- A scan that starts is the one that was owed. -/
theorem Turn.owing_of_startScan {m m' : Machine} {x : Signal} (h : Turn m x m' .startScan)
    (ht : m.Tidy) : m'.owing = 0 := by
  have hq : m.pending = false := by
    apply Bool.eq_false_iff.2
    intro hp
    exact h.phase_of_startScan (ht hp)
  apply Machine.owing_of_not_owed
  cases h with
  | start | fire | resume => simp [Owed, hq]

/-- A turn that starts a scan makes use of a demand: one that it hears, or one that was owed. -/
theorem Turn.opens_or_owed_of_startScan {m m' : Machine} {x : Signal}
    (h : Turn m x m' .startScan) : x.opens m = true ∨ Owed m.control := by
  cases h with
  | start hp => exact .inl (by simp [Signal.opens, hp])
  | fire hp hd => exact .inr ⟨hp, .inl hd⟩
  | resume hp => exact .inl (by simp [Signal.opens, hp])

/-- What is owed after a turn was demanded by it or was owed before. -/
theorem Turn.opens_or_owed {m m' : Machine} {x : Signal} {a : Action} (h : Turn m x m' a)
    (ht : m.Tidy) (ho : Owed m'.control) : x.opens m = true ∨ Owed m.control := by
  cases h with
  | mutedRefresh | mutedImmediate | stale | still => exact .inr ho
  | queueRefresh hp | queueImmediate hp | arm hp | start hp =>
    exact .inl (by simp [Signal.opens, hp])
  | resumeScanning hp | resume hp => exact .inl (by simp [Signal.opens, hp])
  | fire hp hd => exact .inr ⟨hp, .inl hd⟩
  | pauseIdle | pauseDebouncing | pauseScanning => cases ho.1
  | settle => simp [Owed] at ho
  | followUp hp hq => exact .inr ⟨hp, .inr ⟨ht hq, hq⟩⟩

/-- A turn spends no more than it is paid and was owed. -/
theorem Turn.starts_le {m m' : Machine} {x : Signal} {a : Action} (h : Turn m x m' a)
    (ht : m.Tidy) :
    (decide (a = .startScan)).toNat + m'.owing ≤ (x.opens m).toNat + m.owing := by
  have hpaid : x.opens m = true ∨ Owed m.control → 1 ≤ (x.opens m).toNat + m.owing := by
    rintro (ho | ho)
    · simp [ho]
    · simp [Machine.owing, ho]
  by_cases ha : a = .startScan
  · subst ha
    rw [h.owing_of_startScan ht]
    exact hpaid h.opens_or_owed_of_startScan
  · by_cases ho : Owed m'.control
    · simpa [ha, Machine.owing, ho] using hpaid (h.opens_or_owed ht ho)
    · simp [ha, Machine.owing_of_not_owed ho]

theorem Beat.starts_le {k : Beat} (ht : k.machine.Tidy) :
    k.starts.toNat + k.response.1.owing ≤ k.demands.toNat + k.machine.owing := by
  obtain ⟨m, x⟩ := k
  cases x with
  | told x => exact (m.receive_turn x).starts_le ht
  | timed t => exact Nat.le_refl _

/-- Only a turn starts a scan. -/
theorem Beat.turn_of_starts {k : Beat} (h : k.starts = true) :
    ∃ x, Turn k.machine x k.response.1 .startScan := by
  obtain ⟨m, x⟩ := k
  have ha : (Beat.response ⟨m, x⟩).2 = .startScan := of_decide_eq_true h
  cases x with
  | told x =>
    have hturn := m.receive_turn x
    rw [show (m.receive x).2 = .startScan from ha] at hturn
    exact ⟨x, hturn⟩
  | timed t => cases ha

theorem Beat.owing_of_starts {k : Beat} (ht : k.machine.Tidy) (hs : k.starts = true) :
    k.response.1.owing = 0 := by
  obtain ⟨x, hturn⟩ := Beat.turn_of_starts hs
  exact hturn.owing_of_startScan ht

/-! ## Stretches of beats -/

/-- The scans that start in a stretch, and the one owed behind it, do not outnumber the demands
made in it and the one owed before it. -/
theorem Machine.starts_le {m : Machine} (ht : m.Tidy) (xs : List Input) :
    (m.beats xs).countP Beat.starts + (m.past xs).owing ≤
      (m.beats xs).countP Beat.demands + m.owing := by
  induction xs generalizing m with
  | nil => exact Nat.le_refl _
  | cons x xs ih =>
    have hfirst := Beat.starts_le (k := ⟨m, x⟩) ht
    have hrest := ih (Beat.tidy (k := ⟨m, x⟩) ht)
    have hcount : ∀ (p : Beat → Bool) (k : Beat) (ks : List Beat),
        (k :: ks).countP p = (p k).toNat + ks.countP p := by
      intro p k ks
      cases hp : p k <;> simp [hp, Nat.add_comm]
    rw [beats, past, hcount, hcount]
    simp only at hfirst
    omega

/-- Nothing is owed at the outset, nor behind a beat that starts a scan. -/
theorem Machine.owing_of_getLast? {t : Timings} {xs : List Input} (ht : (Machine.start t).Tidy)
    (h : ∀ k, ((Machine.start t).beats xs).getLast? = some k → k.starts = true) :
    ((Machine.start t).past xs).owing = 0 := by
  cases hk : ((Machine.start t).beats xs).getLast? with
  | none =>
    cases xs with
    | nil => rfl
    | cons x xs => simp [beats] at hk
  | some k =>
    rw [past_of_getLast? hk]
    exact Beat.owing_of_starts (ht.beats (List.mem_of_getLast? hk)) (h k hk)

/-- While a scan runs no other one starts. -/
theorem Beat.starts_of_scanning {k : Beat} (h : k.machine.phase = .scanning) :
    k.starts = false := by
  apply Bool.eq_false_iff.2
  intro hs
  obtain ⟨x, hturn⟩ := Beat.turn_of_starts hs
  exact hturn.phase_of_startScan h

/-! ## Bursts -/

/-- A burst of requests, and the timers that are delivered behind it. -/
def burst (n : Nat) : List Input := List.replicate n (.told .refresh)

def deliveries (gs : List Nat) : List Input := gs.map fun g => .told (.elapsed g)

section
variable {m : Machine} (hp : m.paused = false) (hs : m.phase ≠ .scanning)
include hp hs

theorem Beat.response_refresh :
    Beat.response ⟨m, .told .refresh⟩ = m.arm m.timings.debounce := by
  simp [response, Machine.receive, Machine.requestRefresh, hp, hs]

theorem Machine.beats_burst (n : Nat) :
    m.beats (burst (n + 1)) =
      ⟨m, .told .refresh⟩ :: (m.arm m.timings.debounce).1.beats (burst n) := by
  rw [← Beat.response_refresh hp hs]
  rfl

theorem Machine.past_burst (n : Nat) :
    m.past (burst n) =
      if n = 0 then m
      else { m with generation := m.generation + n, phase := .debouncing } := by
  induction n generalizing m with
  | zero => rfl
  | succ n ih =>
    have hrest := ih (m := (m.arm m.timings.debounce).1) hp (fun h => by cases h)
    show (Beat.response ⟨m, .told .refresh⟩).1.past (burst n) = _
    rw [Beat.response_refresh hp hs, hrest]
    cases n with
    | zero => rfl
    | succ n => simp [arm, Nat.add_comm 1, Nat.add_assoc]

/-- A burst starts nothing. -/
theorem Machine.starts_burst (n : Nat) : (m.beats (burst n)).countP Beat.starts = 0 := by
  induction n generalizing m with
  | zero => rfl
  | succ n ih =>
    rw [beats_burst hp hs, List.countP_cons_of_neg]
    · exact ih hp (fun h => by cases h)
    · simp [Beat.starts, Beat.response_refresh hp hs, arm]

/-- A burst arms the timer that is waited for behind it. -/
theorem Machine.armed_burst (n : Nat) :
    ∃ k ∈ m.beats (burst (n + 1)),
      k.response.2 = .armTimer (m.generation + (n + 1)) m.timings.debounce := by
  induction n generalizing m with
  | zero => exact ⟨_, .head _, congrArg Prod.snd (Beat.response_refresh hp hs)⟩
  | succ n ih =>
    obtain ⟨k, hk, harmed⟩ := ih (m := (m.arm m.timings.debounce).1) hp (fun h => by cases h)
    rw [beats_burst hp hs]
    refine ⟨k, .tail _ hk, harmed.trans ?_⟩
    simp [arm, Nat.add_comm 1, Nat.add_assoc]

end

/-- Timers that fire while none is waited for start nothing. -/
theorem Machine.starts_of_not_debouncing {m : Machine} (hd : m.phase ≠ .debouncing)
    (gs : List Nat) : (m.beats (deliveries gs)).countP Beat.starts = 0 := by
  induction gs with
  | nil => rfl
  | cons g gs ih =>
    have hstale : Beat.response ⟨m, .told (.elapsed g)⟩ = (m, .none) := by
      simp [Beat.response, receive, timerElapsed, hd]
    show (_ :: (Beat.response ⟨m, .told (.elapsed g)⟩).1.beats (deliveries gs)).countP _ = 0
    rw [List.countP_cons_of_neg (by simp [Beat.starts, hstale]), hstale, ih]

/-- The timer that is waited for starts one scan, the first time it fires. -/
theorem Machine.starts_of_debouncing {m : Machine} (hp : m.paused = false)
    (hd : m.phase = .debouncing) {gs : List Nat} (hg : m.generation ∈ gs) :
    (m.beats (deliveries gs)).countP Beat.starts = 1 := by
  induction gs with
  | nil => cases hg
  | cons g gs ih =>
    show (_ :: (Beat.response ⟨m, .told (.elapsed g)⟩).1.beats (deliveries gs)).countP _ = 1
    by_cases he : g = m.generation
    · have hfire : Beat.response ⟨m, .told (.elapsed g)⟩ = m.begin := by
        simp [Beat.response, receive, timerElapsed, hp, hd, he]
      rw [List.countP_cons_of_pos (by simp [Beat.starts, hfire, begin]), hfire]
      rw [starts_of_not_debouncing (by simp [begin])]
    · have hstale : Beat.response ⟨m, .told (.elapsed g)⟩ = (m, .none) := by
        simp [Beat.response, receive, timerElapsed, he]
      rw [List.countP_cons_of_neg (by simp [Beat.starts, hstale]), hstale]
      exact ih ((List.mem_cons.1 hg).resolve_left fun h => he h.symm)

/-! ## Coalescing -/

/-- Whatever a machine is told, and in whatever order.  A scan that starts has a demand of its own:
one is made after the scan before it started, or after the outset.  However many demands are made
while a scan runs, they lead to one more scan at most, beside those that are demanded later.  And
a burst of requests to a machine that rests, followed by timers among which are all that it armed,
in any order and any number of times, starts one scan. -/
theorem requests_coalesce (t : Timings) (xs : List Input) :
    (∀ before between k after, (Machine.start t).beats xs = before ++ between ++ k :: after →
        (∀ j, before.getLast? = some j → j.starts = true) → k.starts = true →
        ∃ d ∈ between ++ [k], d.demands = true) ∧
      (∀ before running after, (Machine.start t).beats xs = before ++ running ++ after →
        (∀ k ∈ running, k.machine.phase = .scanning) →
        (running ++ after).countP Beat.starts ≤ 1 + after.countP Beat.demands) ∧
      ∀ (m : Machine) (n : Nat) (gs : List Nat), m = (Machine.start t).past xs →
        m.paused = false → m.phase = .idle →
        (∀ k ∈ m.beats (burst (n + 1)), ∀ g d, k.response.2 = .armTimer g d → g ∈ gs) →
        (m.beats (burst (n + 1) ++ deliveries gs)).countP Beat.starts = 1 := by
  have htidy : (Machine.start t).Tidy := nofun
  refine ⟨?_, ?_, ?_⟩
  · intro before between k after h hbefore hk
    have hcut : (Machine.start t).beats xs = before ++ ((between ++ [k]) ++ after) := by
      simpa using h
    obtain ⟨ys, zs, -, rfl, hrest⟩ := Machine.beats_eq_append hcut
    obtain ⟨us, -, -, hus, -⟩ := Machine.beats_eq_append hrest.symm
    have hcount := Machine.starts_le (htidy.past ys) us
    rw [Machine.owing_of_getLast? htidy hbefore, ← hus] at hcount
    have hstarts : 0 < (between ++ [k]).countP Beat.starts :=
      List.countP_pos_iff.2 ⟨k, by simp, hk⟩
    have hdemands : 0 < (between ++ [k]).countP Beat.demands := by omega
    exact List.countP_pos_iff.1 hdemands
  · intro before running after h hrunning
    obtain ⟨ys, zs, -, -, rfl⟩ := Machine.beats_eq_append h
    have hcount : running.countP Beat.starts = 0 := by
      rw [List.countP_eq_zero]
      intro k hk
      simp [Beat.starts_of_scanning (hrunning k hk)]
    have hafter := Machine.starts_le (htidy.past ys) zs
    have howing := ((Machine.start t).past ys).owing_le
    rw [List.countP_append, hcount]
    omega
  · rintro m n gs rfl hp hi harmed
    have hs : ((Machine.start t).past xs).phase ≠ .scanning := by simp [hi]
    obtain ⟨k, hk, hlast⟩ := Machine.armed_burst hp hs n
    have hpast := Machine.past_burst hp hs (n + 1)
    rw [if_neg (Nat.succ_ne_zero n)] at hpast
    rw [Machine.beats_append, List.countP_append, Machine.starts_burst hp hs, Nat.zero_add, hpast]
    apply Machine.starts_of_debouncing
    · exact hp
    · rfl
    · exact harmed k hk _ _ hlast

/-- Two requests are heard while the first scan runs, and the timer of the second one fires twice,
behind one that nobody armed.  Then two more come while the machine rests, and their timers fire
in the wrong order and twice. -/
theorem requests_coalesce_follow_up :
    ∃ xs first running timer k rest, (Machine.start ⟨500, 100⟩).beats xs =
        [first] ++ running ++ ([timer] ++ k :: rest) ∧
      running.countP Beat.demands = 2 ∧ k.starts = true ∧
      (∃ d ∈ running ++ [timer] ++ [k], d.demands = true) ∧
      (running ++ ([timer] ++ k :: rest)).countP Beat.starts ≤
        1 + ([timer] ++ k :: rest).countP Beat.demands ∧
      ([timer] ++ k :: rest).countP Beat.demands = 0 ∧
      (((Machine.start ⟨500, 100⟩).past xs).beats
        (burst 2 ++ deliveries [5, 4, 5])).countP Beat.starts = 1 := by
  let xs : List Input := [.told .immediate, .told .refresh, .told .immediate, .told .finished,
    .told (.elapsed 1), .told (.elapsed 2), .told (.elapsed 2), .told .finished]
  obtain ⟨hdemand, hrunning, hburst⟩ := requests_coalesce ⟨500, 100⟩ xs
  refine ⟨xs, _, [_, _, _], _, _, [_, _], rfl, rfl, rfl, ?_, ?_, rfl, ?_⟩
  · refine hdemand [_] [_, _, _, _] _ [_, _] rfl ?_ rfl
    intro j hj
    obtain rfl := Option.some.inj hj
    rfl
  · exact hrunning [_] [_, _, _] [_, _, _, _] rfl (by simp +decide)
  · refine hburst _ 1 [5, 4, 5] rfl rfl rfl ?_
    intro k hk g d ha
    rcases hk with _ | ⟨_, _ | ⟨_, hk⟩⟩
    · obtain ⟨rfl, -⟩ := Action.armTimer.inj ha
      decide
    · obtain ⟨rfl, -⟩ := Action.armTimer.inj ha
      decide
    · cases hk

end ProblemBoard.Refresh
