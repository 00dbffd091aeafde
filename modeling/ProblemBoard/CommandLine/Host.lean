import ProblemBoard.Collect.Basic
import ProblemBoard.Producer.Launch
import ProblemBoard.Producer.Lint
import ProblemBoard.Producer.LiveStore
import ProblemBoard.Producer.TypeCheck
import ProblemBoard.Settings.Discovery

/-!
# Hosts

Where the program runs: the files, the directory it was started in, the home directory of
its user, the search path, and the programs that are installed.  Both producers run as
programs of the host.

Before anything else the program opens its log, in the home directory of the user or, when
something stands in the way there, in the directory it was started in.
-/

namespace ProblemBoard.CommandLine

/-- Where the program runs. -/
structure Host where
  files : Image
  /-- The directory it was started in. -/
  directory : Location
  home : Path
  searchPath : String
  /-- The programs that are installed. -/
  programs : List Image.Installed

namespace Host

/-- What the program sees of the files. -/
def fileSystem (h : Host) : FileSystem := h.files.seenFrom h.directory

/-! ## The log -/

/-- The names that lead from a directory to the log in it. -/
def logNames : Location := [Settings.directoryName, "logs", "lintlens.log"]

/-- Whether a file stands where a location needs a directory. -/
def blocked (m : Image) (l : Location) : Bool :=
  (List.range l.length).any fun n =>
    match m.get? (l.take n) with
    | some (.file _ _) => true
    | _ => false

/-- The files with a log at a location, `none` when something stands in its way. -/
def withLog (m : Image) (l : Location) : Option Image :=
  if blocked m l then none
  else
    match m.get? l with
    | some .directory => none
    | some (.file _ _) => some m
    | none => some (m.addFile l [] false)

/-- The host with the log of this program, if it can be opened somewhere. -/
def openLog (h : Host) : Host :=
  let atHome := Image.locationOf h.home ++ logNames
  let here := h.directory ++ logNames
  { h with files := (withLog h.files atHome <|> withLog h.files here).getD h.files }

/-! ## The workspace and its producers -/

/-- The workspace root as the user names it, without a name the directory of the program. -/
def namedRoot (h : Host) (named : Option Path) : Path := named.getD (Image.pathOf h.directory)

/-- The absolute path of what stands at a path. -/
def canonical (h : Host) (p : Path) : Except AccessError Path :=
  (h.files.locate h.directory p).map Image.pathOf

/-- The program of an engine for a workspace. -/
def locate (h : Host) (root : Path) (engine : String) : Option Path :=
  Engine.locate h.fileSystem root (Image.pathOf h.directory) h.searchPath engine

def launch (h : Host) : Launcher := h.files.launch h.directory h.programs

/-- What a producer does with a request.  No editor publishes anything here. -/
def engineRun (h : Host) (k : ProducerKind) (r : Request) : EngineRun :=
  match k with
  | .typeCheck => TypeCheck.run (h.locate r.root) h.launch r
  | .lint => Lint.run h.fileSystem (h.locate r.root) h.launch r
  | .live => ⟨[], none, LiveStore.empty.answer r⟩

def producerName : ProducerKind → String
  | .typeCheck => typeCheckName
  | .lint => lintName
  | .live => liveName

def ask (h : Host) (k : ProducerKind) (r : Request) : Outcome :=
  match (h.engineRun k r).result with
  | .ok found => .found found
  | .error e => .failed e

/-- Collects the problems of a project. -/
def inquire (h : Host) (p : Project) (f : Filters) : Collect.Inquiry :=
  Collect.collect h.fileSystem Exclude.noLimit (fun k => .ok (producerName k)) h.ask p f

/-- What comes of collecting the problems of a project. -/
def collect (h : Host) (p : Project) (f : Filters) : Except Collect.Abort Collection :=
  (h.inquire p f).result

def calls (h : Host) (p : Project) (f : Filters) : List EngineCall :=
  (h.inquire p f).asked.filterMap fun step => (h.engineRun step.1 step.2).call

end Host

end ProblemBoard.CommandLine
