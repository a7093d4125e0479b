import QUniLator.Framework.Attempt
import QUniLator.Shared.Names

namespace QUniLator.Shared

open Function

/-- `operation_e` -/
inductive Operation
  | create | modify | delete
  deriving DecidableEq,Repr

/-- The `IN_*` of an inotify event that the watch asks for. -/
inductive Inotify
  | create | attrib | modify | closeWrite | movedFrom | movedTo | delete
  deriving DecidableEq,Repr

/-- The directory on disk: its files with their sizes, and the inotify events not yet read -/
structure SharedDir where
  size : Name → Option Nat
  pending : List (Inotify × Name)

namespace SharedDir

def fileExists (n : Name) (d : SharedDir) : Bool := (d.size n).isSome

def notify (m : Inotify) (n : Name) (d : SharedDir) : SharedDir :=
  { d with pending := d.pending++[(m,n)] }

def setSize (n : Name) (size : Option Nat) (d : SharedDir) : SharedDir :=
  { d with size := update d.size n size }

/-- `open(O_CREAT | O_TRUNC)` -/
def create (n : Name) (d : SharedDir) : SharedDir :=
  (d.setSize n (some 0)).notify (if d.fileExists n then .modify else .create) n

/-- A `write()`, to a file that may have been unlinked meanwhile -/
def write (n : Name) (size : Nat) (d : SharedDir) : SharedDir :=
  (if d.fileExists n then d.setSize n (some size) else d).notify .modify n

def closeWrite (n : Name) (d : SharedDir) : SharedDir := d.notify .closeWrite n

def touch (n : Name) (d : SharedDir) : SharedDir :=
  if d.fileExists n then d.notify .attrib n else d

def unlink (n : Name) (d : SharedDir) : SharedDir :=
  if d.fileExists n then (d.setSize n none).notify .delete n else d

/-- `rename()`, over a file of that name if there is one -/
def rename (n m : Name) (d : SharedDir) : SharedDir :=
  if d.fileExists n ∧ n≠m then
    (((d.setSize m (d.size n)).setSize n none).notify .movedFrom n).notify .movedTo m
  else d

/-- A file written by the emulator: `render_to_disk` -/
def render (n : Name) (size : Nat) (d : SharedDir) : SharedDir :=
  let d := d.create n
  let d := if size=0 then d else d.write n size
  ((d.closeWrite n).touch n).touch n

end SharedDir

/-- `file_host_c`, with the identity of the object -/
structure HostFile where
  id : Nat
  fileSize : Nat
  inotifyCreatePending : Bool
  inotifyModifyPending : Bool
  deriving DecidableEq,Repr

/-- `filesystem_host_event_c` -/
structure HostEvent where
  operation : Operation
  hostPath : Name
  hostFile : Option Nat
  deriving DecidableEq,Repr

/-- `filesystem_host_c`. `next` counts the file objects. -/
structure HostTree where
  fileByPath : Name → Option HostFile
  eventQueue : List HostEvent
  changed : Bool
  next : Nat

namespace HostTree

/-- `add_file` of a new object -/
def addFile (n : Name) (pending : Bool) (h : HostTree) : HostTree :=
  { h with
    fileByPath := update h.fileByPath n (some ⟨h.next,0,pending,false⟩)
    changed := true,next := h.next+1 }

def removeFile (n : Name) (h : HostTree) : HostTree :=
  { h with fileByPath := update h.fileByPath n none,changed := true }

def setFile (n : Name) (f : HostFile) (h : HostTree) : HostTree :=
  { h with fileByPath := update h.fileByPath n (some f) }

def Registered (e : HostEvent) (h : HostTree) : Prop :=
  ∃ f,h.fileByPath e.hostPath=some f ∧ e.hostFile=some f.id

def push (e : HostEvent) (h : HostTree) : HostTree := { h with eventQueue := h.eventQueue++[e] }

def loadDiskAttributes (d : SharedDir) (n : Name) (f : HostFile) (h : HostTree) : Option HostTree := do
  assert (d.fileExists n)
  pure (h.setFile n { f with fileSize := (d.size n).getD 0 })

def created (n : Name) (h : HostTree) : HostTree :=
  if (h.fileByPath n).isNone then h.addFile n true else h

def inotifyEventEval (d : SharedDir) (m : Inotify) (n : Name) (h : HostTree) : Option HostTree :=
  match m with
  | .create => pure (h.created n)
  | .attrib => do
    let f ← h.fileByPath n
    let h ← h.loadDiskAttributes d n f
    pure (h.push ⟨.modify,n,some f.id⟩)
  | .modify => do
    let f ← h.fileByPath n
    pure (h.setFile n { f with inotifyModifyPending := true })
  | .movedFrom | .delete =>
    if (h.fileByPath n).isSome then pure ((h.removeFile n).push ⟨.delete,n,none⟩) else pure h
  | .movedTo => do
    let h := h.created n
    let f ← h.fileByPath n
    (h.push ⟨.create,n,some f.id⟩).loadDiskAttributes d n f
  | .closeWrite => do
    let f ← h.fileByPath n
    let g := { f with inotifyCreatePending := false,inotifyModifyPending := false }
    let h := h.setFile n g
    -- a creation hides the writes in it
    if f.inotifyCreatePending then
      (h.push ⟨.create,n,some f.id⟩).loadDiskAttributes d n g
    else if f.inotifyModifyPending then
      (h.push ⟨.modify,n,some f.id⟩).loadDiskAttributes d n g
    else pure h

end HostTree

/-- `update_event`. A file that is there again does not change a deletion. -/
def updateEvent (d : SharedDir) (e : HostEvent) : HostEvent :=
  match e.operation with
  | .create | .modify => if d.fileExists e.hostPath then e else { e with operation := .delete }
  | .delete => e

/-- `file_dec_c` with its streams, which carry the path of their host file. `dataChanged` is what `data_changed()`
says of it and the file of its path. -/
structure DecFile where
  path : Name
  hostPath : StreamCode → Option Name
  dataChanged : Bool

abbrev DecStream := Nat × StreamCode

/-- The tree of a `filesystem_dec_c`: the file objects, those in `rootdir->files`, and the map of paths.
`next` counts the file objects. -/
structure DecTree where
  file : Nat → Option DecFile
  files : List Nat
  fileByPath : Name → Option Nat
  changed : Bool
  next : Nat

/-- `filesystem_dec_event_c` -/
structure DecEvent where
  operation : Operation
  hostPath : Name
  decStream : DecStream
  deriving DecidableEq,Repr

/-- What a parse finds of a file in the image -/
structure ParsedFile where
  path : Name
  has : StreamCode → Bool
  dataChanged : Bool

namespace DecTree

def empty : DecTree := ⟨fun _ => none,[],fun _ => none,false,0⟩

def Owns (p : DecStream) (t : DecTree) : Prop :=
  ∃ f,t.file p.1=some f ∧ (f.hostPath p.2).isSome=true

def addFile (f : DecFile) (t : DecTree) : DecTree :=
  { t with
    file := update t.file t.next (some f),files := t.files++[t.next]
    fileByPath := update t.fileByPath f.path (some t.next)
    changed := true,next := t.next+1 }

/-- `remove_file`. The path is forgotten, whichever file it stands for. -/
def removeFile (id : Nat) (f : DecFile) (t : DecTree) : DecTree :=
  { t with
    file := update t.file id none,files := t.files.erase id
    fileByPath := update t.fileByPath f.path none,changed := true }

/-- `clear_rootdir` -/
def clear (t : DecTree) : DecTree :=
  { t with file := fun _ => none,files := [],fileByPath := fun _ => none,changed := true }

def parsed (type : FilesystemType) (f : ParsedFile) : DecFile where
  path := f.path
  hostPath code :=
    if f.has code ∧ (type=.rt11 ∨ code=.data) then some (streamHostPath f.path code) else none
  dataChanged := f.dataChanged

/-- The tree after `parse` -/
def parse (type : FilesystemType) (image : List ParsedFile) (t : DecTree) : DecTree :=
  image.foldl (fun t f => t.addFile (parsed type f)) t.clear

/-- `copy_metadata_to` -/
def copyMetadata (t snapshot : DecTree) : DecTree :=
  (t.files.filterMap t.file).foldl (fun s f => s.addFile { f with dataChanged := false })
    snapshot.clear

/-- `stream_by_host_filename`: the file of a host name -/
def fileByHost (type : FilesystemType) (n : Name) (t : DecTree) : Option (Nat × DecFile) := do
  let id ← t.fileByPath (volumeName type n)
  let f ← t.file id
  pure (id,f)

/-- `import_host_file`. `admitted` tells that the file fits on the volume, and an internal file into its
blocks: no exception is thrown. -/
def importHostFile (type : FilesystemType) (admitted : Bool) (n : Name) (fileSize : Nat)
    (t : DecTree) : Option DecTree :=
  if (t.fileByHost type n).isSome then pure t
  else if fileSize=0 then pure t
  else if isVolumeInfo type n then pure t
  else do
    assert admitted
    pure (t.addFile ⟨volumeName type n,
      fun code => if code=(streamCode type n).2 then some n else none,false⟩)

/-- `delete_host_file`. A file of RT-11 goes with the last of its streams. -/
def deleteHostFile (type : FilesystemType) (n : Name) (t : DecTree) : DecTree :=
  match t.fileByHost type n with
  | none => t
  | some (id,f) =>
    if isVolumeInfo type n then t
    else
      match type with
      | .xxdp => t.removeFile id f
      | .rt11 =>
        let code := (streamCode type n).2
        let f' := { f with hostPath := update f.hostPath code none }
        if (f.hostPath code).isNone then t
        else if StreamCode.all.all fun code => (f'.hostPath code).isNone then t.removeFile id f
        else { t with file := update t.file id (some f') }

/-- The stream that `deleteHostFile` deletes -/
def deletes (type : FilesystemType) (n : Name) (p : DecStream) (t : DecTree) : Bool :=
  (t.fileByHost type n).any fun x =>
    p.1=x.1 && !isVolumeInfo type n && (type=.xxdp || p.2=(streamCode type n).2)

/-- `produce_event_for_all_streams` -/
def produceEvents (operation : Operation) (id : Nat) (f : DecFile) : List DecEvent :=
  StreamCode.all.filterMap fun code =>
    (f.hostPath code).map fun hostPath => ⟨operation,hostPath,(id,code)⟩

/-- `compare_directories`, of the roots. The roots themselves do not differ. -/
def compareDirectories (a b : DecTree) (missing : Operation) (produceModify : Bool) : List DecEvent :=
  a.files.flatMap fun id =>
    match a.file id with
    | none => []
    | some f =>
      if (b.fileByPath f.path).isNone then produceEvents missing id f
      else if f.dataChanged && produceModify then produceEvents .modify id f
      else []

/-- `produce_events` -/
def changeEvents (t snapshot : DecTree) : List DecEvent :=
  t.compareDirectories snapshot .create true++snapshot.compareDirectories t .delete false

end DecTree

end QUniLator.Shared
