import Workflow.Store.Payload

/-! A store of one file for each checkpoint, in a directory for each thread. The names of files begin with
    the number of files before them, so that they sort in the order of writing. -/

namespace Workflow.Store

structure File where
  thread : String
  name : String
  payload : Payload
  deriving Inhabited

structure Files where
  directory : String
  /-- The threads that have a directory. -/
  folders : List String := []
  files : List File := []
  deriving Inhabited

namespace Files

/-- A thread id that can be the name of a directory. -/
def isDirectoryName (thread : String) : Bool :=
  !thread.isEmpty && !thread.contains '/' && !thread.contains '\\' && thread != "." && thread != ".."

def checkThread (thread : String) : Except Fault Unit :=
  if isDirectoryName thread then .ok ()
  else
    .error (.failure (.checkpoint
      s!"Invalid thread id for file storage: {(Value.str thread).literal}"))

/-- A number with eight digits at least. -/
def eightDigits (n : Nat) : String :=
  let ds := toString n
  Number.zeros (8 - ds.length) ++ ds

def fileName (number : Nat) (id : String) : String := eightDigits number ++ "_" ++ id ++ ".json"

/-- The files of a thread in the order of their names. -/
def ofThread (s : Files) (thread : String) : List File :=
  if s.folders.contains thread then
    (s.files.filter fun f => f.thread == thread).mergeSort fun f g => decide (f.name ≤ g.name)
  else []

def path (s : Files) (thread name : String) : String := s.directory ++ "/" ++ thread ++ "/" ++ name

/-- The directory of a thread is made unless it is there. -/
def withFolder (s : Files) (thread : String) : Files :=
  if s.folders.contains thread then s else { s with folders := s.folders ++ [thread] }

/-- Puts a file into the directory of its thread, over one of the same name. -/
def put (s : Files) (f : File) : Files :=
  { s with files := (s.files.filter fun g => !(g.thread == f.thread && g.name == f.name)) ++ [f] }

/-- Writes a checkpoint. A name that no file can have is refused when the directory has been made. -/
def write (s : Files) (c : Checkpoint) : Files × Except Fault Unit :=
  let thread := c.thread.text
  match Payload.ofCheckpoint c, checkThread thread with
  | .error f, _ | .ok _, .error f => (s, .error f)
  | .ok payload, .ok _ =>
    let s := s.withFolder thread
    let name := fileName (s.ofThread thread).length c.id.text
    if c.id.text.contains '/' then
      (s, .error (.failure (.checkpoint s!"Failed to write checkpoint {s.path thread name}")))
    else (s.put ⟨thread, name, payload⟩, .ok ())

def save (s : Files) (c : Checkpoint) : Except Fault Files :=
  match s.write c with
  | (s, .ok _) => .ok s
  | (_, .error f) => .error f

/-- What is told of a file that holds no checkpoint. -/
def unreadable (s : Files) (f : File) : Payload.Unreadable where
  text := s!"Failed to read checkpoint {s.path f.thread f.name}"
  octets _ p := .plain .unicode p.message

def readFile (s : Files) (f : File) : Except Fault Checkpoint := f.payload.read (s.unreadable f)

def load (s : Files) (thread : String) : Except Fault (Option Checkpoint) := do
  checkThread thread
  match (s.ofThread thread).getLast? with
  | some f => return some (← s.readFile f)
  | none => return none

def list (s : Files) (thread : String) : Except Fault (List Checkpoint) := do
  checkThread thread
  (s.ofThread thread).mapM s.readFile

def delete (s : Files) (thread : String) : Except Fault (Files × Nat) := do
  checkThread thread
  return ({ s with
             folders := s.folders.filter fun t => t != thread
             files := s.files.filter fun f => f.thread != thread },
    (s.ofThread thread).length)

/-- Puts a text in place of the last file of a thread. -/
def corrupt (s : Files) (thread text : String) : Files :=
  match (s.ofThread thread).getLast? with
  | some last =>
    { s with files := s.files.map fun f =>
        if f.thread = thread ∧ f.name = last.name then { f with payload := .text text } else f }
  | none => s

end Files

end Workflow.Store
