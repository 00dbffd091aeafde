import ProblemBoard.FileSystem.Basic

/-!
# Images of a file system

A whole file system as a value: its entries by the names that lead to them from the root
directory.  Every directory on the way to an entry has an entry of its own, and every operation
keeps it so: what is put somewhere takes the place of all that stood there and below.

A path is followed name by name, as an operating system does: every name but the last must
lead to a directory, `..` leads to the directory above, and a separator at the end asks for
a directory.  A relative path starts at a working directory.
-/

namespace ProblemBoard

/-- The names that lead to an entry from the root directory. -/
abbrev Location := List String

/-- What stands at a location, given the entries below the root directory. -/
def entryOf (entries : List (Location × Entry)) (l : Location) : Option Entry :=
  if l.isEmpty then some .directory else (entries.find? (·.1 = l)).map (·.2)

/-- A whole file system. -/
structure Image where
  /-- The entries below the root directory. -/
  entries : List (Location × Entry)
  /-- What leads to an entry is a directory. -/
  nested : ∀ e ∈ entries, ∀ l, l <+: e.1 → l ≠ e.1 → entryOf entries l = some .directory

namespace Image

/-- The file system that holds only its root directory. -/
def empty : Image := ⟨[], nofun⟩

def get? (m : Image) (l : Location) : Option Entry := entryOf m.entries l

/-- The entries that neither stand at a location nor below it. -/
def apart (entries : List (Location × Entry)) (l : Location) : List (Location × Entry) :=
  entries.filter fun e => !l.isPrefixOf e.1

theorem mem_apart {entries : List (Location × Entry)} {l : Location} {e : Location × Entry} :
    e ∈ apart entries l ↔ e ∈ entries ∧ ¬l <+: e.1 := by
  simp [apart, Bool.eq_false_iff]

/-- Nothing changes at a location that does not lie below the one that is emptied. -/
theorem entryOf_apart {entries : List (Location × Entry)} {k l : Location} (h : ¬l <+: k) :
    entryOf (apart entries l) k = entryOf entries k := by
  have hfind : (apart entries l).find? (·.1 = k) = entries.find? (·.1 = k) := by
    rw [apart, List.find?_filter]
    congr 1
    funext e
    by_cases hk : e.1 = k
    · simpa [hk, Bool.eq_false_iff] using h
    · simp [hk]
  rw [entryOf, entryOf, hfind]

theorem entryOf_cons_apart {entries : List (Location × Entry)} {k l : Location} {e : Entry}
    (h : ¬l <+: k) : entryOf ((l, e) :: apart entries l) k = entryOf entries k := by
  have hne : l ≠ k := fun hlk => h (hlk ▸ List.prefix_rfl)
  calc entryOf ((l, e) :: apart entries l) k = entryOf (apart entries l) k := by
        simp [entryOf, hne]
    _ = entryOf entries k := entryOf_apart h

/-- The file system without what stands at a location and below it. -/
def remove (m : Image) (l : Location) : Image where
  entries := apart m.entries l
  nested := by
    intro e he k hk hne
    obtain ⟨hmem, hout⟩ := mem_apart.1 he
    rw [entryOf_apart fun h => hout (h.trans hk)]
    exact m.nested e hmem k hk hne

/-- The file system with an entry in place of all that stood at its location and below it. -/
def put (m : Image) (l : Location) (e : Entry)
    (hway : ∀ k, k <+: l → k ≠ l → m.get? k = some .directory) : Image where
  entries := (l, e) :: apart m.entries l
  nested := by
    intro d hd k hk hne
    rcases List.mem_cons.1 hd with rfl | hd
    · rw [entryOf_cons_apart fun h => hne (hk.eq_of_length_le h.length_le)]
      exact hway k hk hne
    · obtain ⟨hmem, hout⟩ := mem_apart.1 hd
      rw [entryOf_cons_apart fun h => hout (h.trans hk)]
      exact m.nested d hmem k hk hne

/-- What leads to a location, and what stands there, are directories. -/
def Leads (m : Image) (l : Location) : Prop := ∀ k, k <+: l → m.get? k = some .directory

theorem leads_root (m : Image) : m.Leads [] := by
  intro k hk
  rw [List.prefix_nil.1 hk]
  rfl

/-- The way to a location is the way to the directory it is in. -/
theorem Leads.below {m : Image} {l : Location} (h : m.Leads l.dropLast) :
    ∀ k, k <+: l → k ≠ l → m.get? k = some .directory := by
  intro k hk hne
  refine h k ?_
  rcases List.eq_nil_or_concat l with rfl | ⟨front, name, rfl⟩
  · exact hk
  · rw [List.concat_eq_append] at hk hne ⊢
    rw [List.dropLast_concat]
    exact (List.prefix_concat_iff.1 hk).resolve_left hne

theorem Leads.concat {m : Image} {l : Location} {name : String} (h : m.Leads l)
    (hname : m.get? (l ++ [name]) = some .directory) : m.Leads (l ++ [name]) := by
  intro k hk
  rcases List.prefix_concat_iff.1 hk with rfl | hk
  · exact hname
  · exact h k hk

theorem Leads.put {m : Image} {l : Location} {name : String} (h : m.Leads l)
    (hway : ∀ k, k <+: l ++ [name] → k ≠ l ++ [name] → m.get? k = some .directory) :
    (m.put (l ++ [name]) .directory hway).Leads (l ++ [name]) := by
  have hfront : (m.put (l ++ [name]) .directory hway).Leads l := by
    intro k hk
    have hout : ¬l ++ [name] <+: k := fun hlk => by
      have hlength := (hlk.trans hk).length_le
      rw [List.length_append, List.length_singleton] at hlength
      omega
    exact (entryOf_cons_apart hout).trans (h k hk)
  exact hfront.concat (by simp [get?, Image.put, entryOf])

/-- The file system with directories at a location and on the way there. The names are those of the
location from the last one to the first. -/
def withWay (m : Image) : (names : List String) → {m' : Image // m'.Leads names.reverse}
  | [] => ⟨m, m.leads_root⟩
  | name :: names =>
      let way := m.withWay names
      match h : way.1.get? (names.reverse ++ [name]) with
      | some .directory => ⟨way.1, by rw [List.reverse_cons]; exact way.2.concat h⟩
      | _ =>
          have hway : way.1.Leads (names.reverse ++ [name]).dropLast := by
            rw [List.dropLast_concat]
            exact way.2
          ⟨way.1.put (names.reverse ++ [name]) .directory hway.below, by
            rw [List.reverse_cons]; exact way.2.put hway.below⟩

def addDirectory (m : Image) (l : Location) : Image := (m.withWay l.reverse).1

def addFile (m : Image) (l : Location) (content : List UInt8) (executable : Bool) : Image :=
  let way := m.withWay l.dropLast.reverse
  have hway : way.1.Leads l.dropLast := fun k hk => way.2 k (by rwa [List.reverse_reverse])
  way.1.put l (.file (.ok content) executable) hway.below

/-- The greatest number of bytes of a name. -/
def maxName : Nat := 255

/-- The greatest number of bytes of a path. -/
def maxPath : Nat := 4095

/-- Follows pieces of a path from a location. -/
def follow (m : Image) (start : Location) : List (List Char) → Except AccessError Location
  | [] => .ok start
  | piece :: rest =>
      match m.get? start with
      | none => .error .missing
      | some (.file _ _) => .error .notDirectory
      | some .directory =>
          if Path.isVoid piece then m.follow start rest
          else if piece == ['.', '.'] then m.follow start.dropLast rest
          else
            let name := String.ofList piece
            if name.utf8ByteSize > maxName then .error .tooLong
            else m.follow (start ++ [name]) rest

/-- The location of the entry at a path, seen from a working directory. -/
def locate (m : Image) (cwd : Location) (p : Path) : Except AccessError Location :=
  if p.text.isEmpty then .error .missing
  else if p.text.toList.contains '\x00' then .error .nul
  else if p.text.utf8ByteSize > maxPath then .error .tooLong
  else do
    let l ← m.follow (if p.isAbsolute then [] else cwd) p.bodyPieces
    match m.get? l with
    | some _ => .ok l
    | none => .error .missing

def entryAt (m : Image) (cwd : Location) (p : Path) : Except AccessError Entry := do
  match m.get? (← m.locate cwd p) with
  | some e => .ok e
  | none => .error .missing

/-- What a program in a working directory sees. -/
def seenFrom (m : Image) (cwd : Location) : FileSystem := ⟨m.entryAt cwd⟩

/-- The absolute path of a location. -/
def pathOf (l : Location) : Path := ⟨"/" ++ "/".intercalate l⟩

/-- The location an absolute path spells out. -/
def locationOf (p : Path) : Location :=
  p.components.filterMap fun
    | .name s => some s
    | _ => none

end Image

end ProblemBoard
