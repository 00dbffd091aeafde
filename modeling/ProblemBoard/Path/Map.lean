import ProblemBoard.Path.Order

/-!
# Maps keyed by paths

The entries stand in the order of their paths, so there is one for each class of paths with
the same components.  The key of an entry is the spelling that was inserted first.

`get?_alter` says what becomes of the value at a path, `entryAt_insert` and `entryAt_erase` what
becomes of its whole entry, and `values_alter` what becomes of all the values.  A map is known by
its entries: `get?_eq_some_iff` says which entry the value at a path is that of, and `ext_entryAt`
that two maps with the same entries at all paths are equal.
-/

namespace ProblemBoard

/-- Whether the first of two entries stands in front of the second. -/
def EntryBefore {α : Type} (a b : Path × α) : Prop := a.1.before b.1 = true

/-- A map from paths, up to spelling, to values. -/
structure PathMap (α : Type) where
  entries : List (Path × α)
  /-- The keys stand in their order. -/
  sorted : entries.Pairwise EntryBefore
  deriving DecidableEq, Repr

namespace PathMap

variable {α : Type}

/-! ## Entries -/

/-- Entries with the value at a path computed from the one it had. -/
def alterEntries (p : Path) (f : Option α → α) : List (Path × α) → List (Path × α)
  | [] => [(p, f none)]
  | e :: es =>
      if e.1.same p then (e.1, f (some e.2)) :: es
      else if p.before e.1 then (p, f none) :: e :: es
      else e :: alterEntries p f es

def find (q : Path) (es : List (Path × α)) : Option α :=
  (es.find? fun e => e.1.same q).map (·.2)

/-- The entry of a path, with the spelling that is its key. -/
def findEntry (q : Path) (es : List (Path × α)) : Option (Path × α) := es.find? fun e => e.1.same q

theorem find_eq_map (q : Path) (es : List (Path × α)) :
    find q es = (findEntry q es).map Prod.snd := rfl

/-- A key of altered entries is the path or an old key. -/
theorem key_of_mem_alterEntries {p : Path} {f : Option α → α} {es : List (Path × α)}
    {x : Path × α} (h : x ∈ alterEntries p f es) : x.1 = p ∨ ∃ e ∈ es, e.1 = x.1 := by
  induction es with
  | nil =>
    simp only [alterEntries, List.mem_singleton] at h
    exact .inl (h ▸ rfl)
  | cons e es ih =>
    unfold alterEntries at h
    split at h
    · rcases List.mem_cons.1 h with rfl | h
      · exact .inr ⟨e, List.mem_cons_self, rfl⟩
      · exact .inr ⟨x, List.mem_cons_of_mem _ h, rfl⟩
    · split at h
      · rcases List.mem_cons.1 h with rfl | h
        · exact .inl rfl
        · exact .inr ⟨x, h, rfl⟩
      · rcases List.mem_cons.1 h with rfl | h
        · exact .inr ⟨x, List.mem_cons_self, rfl⟩
        · rcases ih h with h | ⟨y, hy, h⟩
          · exact .inl h
          · exact .inr ⟨y, List.mem_cons_of_mem _ hy, h⟩

theorem sorted_alterEntries (p : Path) (f : Option α → α) {es : List (Path × α)}
    (h : es.Pairwise EntryBefore) : (alterEntries p f es).Pairwise EntryBefore := by
  induction es with
  | nil => exact List.pairwise_singleton _ _
  | cons e es ih =>
    obtain ⟨hhead, htail⟩ := List.pairwise_cons.1 h
    unfold alterEntries
    split
    · exact List.pairwise_cons.2 ⟨hhead, htail⟩
    · next hs =>
      split
      · next hb =>
        refine List.pairwise_cons.2 ⟨fun x hx => ?_, h⟩
        rcases List.mem_cons.1 hx with rfl | hx
        · exact hb
        · exact Path.before_trans hb (hhead x hx)
      · next hb =>
        refine List.pairwise_cons.2 ⟨fun x hx => ?_, ih htail⟩
        rcases key_of_mem_alterEntries hx with hp | ⟨y, hy, hp⟩
        · unfold EntryBefore
          rw [hp]
          exact Path.before_of_not_before (Bool.eq_false_iff.2 hs) (Bool.eq_false_iff.2 hb)
        · unfold EntryBefore
          rw [← hp]
          exact hhead y hy

/-- Nothing is found behind an entry that stands behind the path already. -/
theorem findEntry_eq_none_of_before {q : Path} {es : List (Path × α)}
    (h : ∀ e ∈ es, q.before e.1 = true) : findEntry q es = none := by
  simp only [findEntry, List.find?_eq_none, Bool.not_eq_true]
  intro e he
  apply Bool.eq_false_iff.2
  intro hs
  exact Bool.eq_false_iff.1 (Path.not_same_of_before (h e he)) (Path.same_symm hs)

theorem find_eq_none_of_before {q : Path} {es : List (Path × α)}
    (h : ∀ e ∈ es, q.before e.1 = true) : find q es = none := by
  rw [find_eq_map, findEntry_eq_none_of_before h, Option.map_none]

theorem findEntry_cons (q : Path) (e : Path × α) (es : List (Path × α)) :
    findEntry q (e :: es) = if e.1.same q then some e else findEntry q es := by
  unfold findEntry
  cases h : e.1.same q <;> simp [h]

theorem find_cons (q : Path) (e : Path × α) (es : List (Path × α)) :
    find q (e :: es) = if e.1.same q then some e.2 else find q es := by
  rw [find_eq_map, findEntry_cons]
  split <;> rfl

/-- The entry at a path gets the new value and keeps its key, if there was one. -/
theorem findEntry_alterEntries (p q : Path) (f : Option α → α) {es : List (Path × α)}
    (h : es.Pairwise EntryBefore) :
    findEntry q (alterEntries p f es) =
      if p.same q then some (((findEntry p es).map Prod.fst).getD p, f (find p es))
      else findEntry q es := by
  induction es with
  | nil =>
    rw [alterEntries, findEntry_cons]
    rfl
  | cons e es ih =>
    obtain ⟨hhead, htail⟩ := List.pairwise_cons.1 h
    unfold alterEntries
    split
    · next hs =>
      have hq : e.1.same q = p.same q := by
        simp only [Path.same, Path.same_iff.1 hs]
      rw [findEntry_cons, findEntry_cons, findEntry_cons, find_cons, if_pos hs, if_pos hs, hq]
      split <;> rfl
    · next hs =>
      split
      · next hb =>
        have hall : ∀ x ∈ e :: es, p.before x.1 = true :=
          List.forall_mem_cons.2 ⟨hb, fun x hx => Path.before_trans hb (hhead x hx)⟩
        rw [findEntry_cons q (p, f none), findEntry_eq_none_of_before hall,
          find_eq_none_of_before hall]
        rfl
      · rw [findEntry_cons, ih htail, findEntry_cons p, findEntry_cons q, find_cons, if_neg hs,
          if_neg hs]
        cases he : e.1.same q with
        | false => simp
        | true =>
          have hpq : p.same q = false := by
            apply Bool.eq_false_iff.2
            intro hpq
            exact hs (Path.same_trans he (Path.same_symm hpq))
          simp [hpq]

theorem find_alterEntries (p q : Path) (f : Option α → α) {es : List (Path × α)}
    (h : es.Pairwise EntryBefore) :
    find q (alterEntries p f es) = if p.same q then some (f (find p es)) else find q es := by
  rw [find_eq_map, findEntry_alterEntries p q f h]
  split <;> rfl

theorem findEntry_filter (p q : Path) (es : List (Path × α)) :
    findEntry q (es.filter fun e => !e.1.same p) = if p.same q then none else findEntry q es := by
  induction es with
  | nil => simp [findEntry]
  | cons e es ih =>
    cases he : e.1.same p with
    | true =>
      have hq : e.1.same q = p.same q := by
        simp only [Path.same, Path.same_iff.1 he]
      rw [List.filter_cons_of_neg (by simp [he]), ih, findEntry_cons, hq]
      split <;> rfl
    | false =>
      rw [List.filter_cons_of_pos (by simp [he]), findEntry_cons, findEntry_cons, ih]
      cases hpq : p.same q with
      | false => simp
      | true =>
        have hq : e.1.same q = false := by
          apply Bool.eq_false_iff.2
          intro hq
          exact Bool.eq_false_iff.1 he (Path.same_trans hq (Path.same_symm hpq))
        simp [hq]

/-- There is one entry for a path, so any entry whose key is the path is that entry. -/
theorem findEntry_of_mem {q : Path} {es : List (Path × α)} (h : es.Pairwise EntryBefore)
    {e : Path × α} (he : e ∈ es) (hs : e.1.same q = true) : findEntry q es = some e := by
  induction es with
  | nil => cases he
  | cons x es ih =>
    obtain ⟨hhead, htail⟩ := List.pairwise_cons.1 h
    rcases List.mem_cons.1 he with rfl | he
    · rw [findEntry_cons, if_pos hs]
    · have hx : x.1.same q = false := by
        apply Bool.eq_false_iff.2
        intro hx
        exact Bool.eq_false_iff.1 (Path.not_same_of_before (hhead e he))
          (Path.same_trans hx (Path.same_symm hs))
      rw [findEntry_cons, hx]
      exact ih htail he

/-- The value at a path stands in one place, and when it changes all the others stay in theirs. -/
theorem values_alterEntries (p : Path) (f : Option α → α) {es : List (Path × α)}
    (h : es.Pairwise EntryBefore) :
    ∃ front back, es.map Prod.snd = front ++ ((find p es).toList ++ back) ∧
      (alterEntries p f es).map Prod.snd = front ++ f (find p es) :: back := by
  induction es with
  | nil => exact ⟨[], [], rfl, rfl⟩
  | cons e es ih =>
    obtain ⟨hhead, htail⟩ := List.pairwise_cons.1 h
    unfold alterEntries
    split
    · next hs =>
      rw [find_cons, if_pos hs]
      exact ⟨[], es.map Prod.snd, rfl, rfl⟩
    · next hs =>
      split
      · next hb =>
        have hp : find p (e :: es) = none := by
          refine find_eq_none_of_before (List.forall_mem_cons.2 ⟨hb, fun x hx => ?_⟩)
          exact Path.before_trans hb (hhead x hx)
        rw [hp]
        exact ⟨[], (e :: es).map Prod.snd, rfl, rfl⟩
      · obtain ⟨front, back, hold, hnew⟩ := ih htail
        rw [find_cons, if_neg hs]
        exact ⟨e.2 :: front, back, congrArg (e.2 :: ·) hold, congrArg (e.2 :: ·) hnew⟩

/-! ## Maps -/

def empty : PathMap α := ⟨[], .nil⟩

instance : Inhabited (PathMap α) := ⟨empty⟩

def get? (m : PathMap α) (p : Path) : Option α := find p m.entries

/-- The entry of a path, with the spelling that is its key. -/
def entryAt (m : PathMap α) (p : Path) : Option (Path × α) := findEntry p m.entries

/-- The map with the value at a path computed from the one it had.  A new entry gets the
given spelling, an old one keeps its own. -/
def alter (m : PathMap α) (p : Path) (f : Option α → α) : PathMap α :=
  ⟨alterEntries p f m.entries, sorted_alterEntries p f m.sorted⟩

def insert (m : PathMap α) (p : Path) (a : α) : PathMap α := m.alter p fun _ => a

def erase (m : PathMap α) (p : Path) : PathMap α :=
  ⟨m.entries.filter fun e => !e.1.same p, m.sorted.filter _⟩

def size (m : PathMap α) : Nat := m.entries.length

/-- The values in the order of their paths. -/
def values (m : PathMap α) : List α := m.entries.map Prod.snd

@[simp] theorem get?_empty (q : Path) : (empty : PathMap α).get? q = none := rfl

theorem get?_eq_map (m : PathMap α) (q : Path) : m.get? q = (m.entryAt q).map Prod.snd := rfl

theorem entryAt_congr (m : PathMap α) {p q : Path} (h : p.same q = true) :
    m.entryAt p = m.entryAt q := by
  simp only [entryAt, findEntry, Path.same, Path.same_iff.1 h]

theorem entryAt_eq_some_iff {m : PathMap α} {q : Path} {e : Path × α} :
    m.entryAt q = some e ↔ e ∈ m.entries ∧ e.1.same q = true := by
  constructor
  · intro h
    have h : m.entries.find? (fun e => e.1.same q) = some e := h
    exact ⟨List.mem_of_find?_eq_some h, by simpa using List.find?_some h⟩
  · exact fun h => findEntry_of_mem m.sorted h.1 h.2

/-- What is found at a path is the value of the entry whose key is that path. -/
theorem get?_eq_some_iff {m : PathMap α} {q : Path} {a : α} :
    m.get? q = some a ↔ ∃ e ∈ m.entries, e.1.same q = true ∧ e.2 = a := by
  simp only [get?_eq_map, Option.map_eq_some_iff, entryAt_eq_some_iff, and_assoc]

/-- A map is known by the entries of all paths. -/
theorem ext_entryAt {m n : PathMap α} (h : ∀ q, m.entryAt q = n.entryAt q) : m = n := by
  have hmem : ∀ e, e ∈ m.entries ↔ e ∈ n.entries := by
    intro e
    have hm : m.entryAt e.1 = some e ↔ e ∈ m.entries := by
      simp [entryAt_eq_some_iff, Path.same_refl]
    have hn : n.entryAt e.1 = some e ↔ e ∈ n.entries := by
      simp [entryAt_eq_some_iff, Path.same_refl]
    rw [← hm, ← hn, h]
  have hnodup : ∀ k : PathMap α, k.entries.Nodup := by
    refine fun k => k.sorted.imp fun {d e} hb hde => ?_
    rw [hde, EntryBefore, Path.before_iff] at hb
    exact List.lt_irrefl _ hb
  have hperm := (List.perm_ext_iff_of_nodup (hnodup m) (hnodup n)).2 hmem
  have hentries : m.entries = n.entries := by
    refine hperm.eq_of_pairwise (fun d e _ _ hde hed => ?_) m.sorted n.sorted
    exact absurd hed (Bool.eq_false_iff.1 (Path.not_before_of_before hde))
  obtain ⟨es, hes⟩ := m
  obtain rfl : es = n.entries := hentries
  rfl

theorem get?_alter (m : PathMap α) (p q : Path) (f : Option α → α) :
    (m.alter p f).get? q = if p.same q then some (f (m.get? p)) else m.get? q :=
  find_alterEntries p q f m.sorted

theorem get?_insert (m : PathMap α) (p q : Path) (a : α) :
    (m.insert p a).get? q = if p.same q then some a else m.get? q :=
  get?_alter m p q fun _ => a

theorem values_alter (m : PathMap α) (p : Path) (f : Option α → α) :
    ∃ front back, m.values = front ++ ((m.get? p).toList ++ back) ∧
      (m.alter p f).values = front ++ f (m.get? p) :: back :=
  values_alterEntries p f m.sorted

theorem mem_values_of_mem_insert {m : PathMap α} {p : Path} {a b : α}
    (h : b ∈ (m.insert p a).values) : b = a ∨ b ∈ m.values := by
  obtain ⟨front, back, hold, hnew⟩ := m.values_alter p fun _ => a
  rw [insert, hnew] at h
  rw [hold]
  simp only [List.mem_append, List.mem_cons] at h ⊢
  rcases h with h | h | h
  · exact .inr (.inl h)
  · exact .inl h
  · exact .inr (.inr (.inr h))

theorem mem_values_of_mem_erase {m : PathMap α} {p : Path} {b : α}
    (h : b ∈ (m.erase p).values) : b ∈ m.values :=
  ((List.filter_sublist).map Prod.snd).subset h

theorem entryAt_insert (m : PathMap α) (p q : Path) (a : α) :
    (m.insert p a).entryAt q =
      if p.same q then some (((m.entryAt p).map Prod.fst).getD p, a) else m.entryAt q :=
  findEntry_alterEntries p q (fun _ => a) m.sorted

theorem entryAt_erase (m : PathMap α) (p q : Path) :
    (m.erase p).entryAt q = if p.same q then none else m.entryAt q :=
  findEntry_filter p q m.entries

end PathMap

end ProblemBoard
