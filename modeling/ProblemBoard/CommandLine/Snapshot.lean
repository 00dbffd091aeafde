import ProblemBoard.CommandLine.Host
import ProblemBoard.Json.Reader

/-!
# Snapshots of hosts

A host written down as one JSON object: the directory the program was started in, the home
directory of its user, the search path, the texts of files by their paths, and the programs
that are installed by theirs, each with what it leaves behind.
-/

namespace ProblemBoard.CommandLine

open ProblemBoard.Json (Fault Reader)

namespace Snapshot

def outputFields : List (Reader.Field EngineOutput) :=
  [⟨"status", false, fun o => return { o with status := .exited (← Reader.nat 255) }⟩,
   ⟨"stdout", false, fun o => return { o with stdout := ← Reader.string }⟩,
   ⟨"stderr", false, fun o => return { o with stderr := ← Reader.string }⟩]

def output : Reader EngineOutput := Reader.record outputFields ⟨.exited 0, "", ""⟩

/-- The host with more files. -/
def addTexts (h : Host) (texts : List (String × String)) : Host :=
  { h with
    files := texts.foldl
      (fun m e => m.addFile (Image.locationOf ⟨e.1⟩) (Text.Utf8.encode e.2) false) h.files }

/-- The host with one more program. -/
def install (h : Host) (program : String × EngineOutput) : Host :=
  let l := Image.locationOf ⟨program.1⟩
  { h with
    files := h.files.addFile l (Text.Utf8.encode "#!") true
    programs := ⟨l, program.2⟩ :: h.programs }

def fields : List (Reader.Field Host) :=
  [⟨"directory", true, fun h => return { h with
      directory := Image.locationOf ⟨← Reader.string⟩ }⟩,
   ⟨"home", true, fun h => return { h with home := ⟨← Reader.string⟩ }⟩,
   ⟨"path", false, fun h => return { h with searchPath := ← Reader.string }⟩,
   ⟨"files", false, fun h => return addTexts h (← Reader.object Reader.string)⟩,
   ⟨"programs", false, fun h => return (← Reader.object output).foldl install h⟩]

/-- A host without files, before anything is read. -/
def blank : Host := ⟨.empty, [], ⟨"/"⟩, "", []⟩

/-- The host that a text describes; the directories it names are there. -/
def host? (text : String) : Except Fault Host := do
  let h ← Reader.run (Reader.record fields blank) text
  return { h with
    files := (h.files.addDirectory h.directory).addDirectory (Image.locationOf h.home) }

end Snapshot

end ProblemBoard.CommandLine
