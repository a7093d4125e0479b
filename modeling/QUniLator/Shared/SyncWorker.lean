import QUniLator.Framework.Run
import QUniLator.Shared.Volume

namespace QUniLator.Shared

/-- Where `sync_worker` is. Without the lock it waits; with it, it reads the inotify events, parses the image, and
gives host events to the volume and its events to the host. -/
inductive Phase
  | wait | poll | work | hostEvents | decEvents
  deriving DecidableEq,Repr

/-- `storageimage_shared_c` and the shared directory. `decTree` and `decQueue` are `filesystem_dec`. -/
structure Sync where
  type : FilesystemType
  dir : SharedDir
  host : HostTree
  decTree : DecTree
  decQueue : List DecEvent
  snapshot : DecTree
  decImageChanged : Bool
  phase : Phase

/-- What a user does in the shared directory -/
inductive HostOp
  | create (n : Name)
  | write (n : Name) (size : Nat)
  | close (n : Name)
  | touch (n : Name)
  | delete (n : Name)
  | rename (n m : Name)
  deriving DecidableEq,Repr

def HostOp.apply : HostOp → SharedDir → SharedDir
  | .create n,d => d.create n
  | .write n size,d => d.write n size
  | .close n,d => d.closeWrite n
  | .touch n,d => d.touch n
  | .delete n,d => d.unlink n
  | .rename n m,d => d.rename n m

/-- The steps of the user, the PDP-11 and the sync worker. `parse` comes with what the image holds, `consumeHost` with
what `import_host_file` checks, `consumeDec` with the size of the stream, `finish` with that of the volume info. -/
inductive Step
  | user (op : HostOp)
  | decWrite
  | lock
  | eval
  | polled (stable : Bool)
  | parse (image : List ParsedFile)
  | consumeHost (admitted : Bool)
  | render
  | consumeDec (size : Nat)
  | finish (info : Nat)

namespace Sync

/-- `filesystem_host_c::consume_event` for a file that is to be created. An existing file is the
acknowledge of the host. -/
def hostCreate (n : Name) (size : Nat) (s : Sync) : Sync :=
  if (s.host.fileByPath n).isSome ∨ s.dir.fileExists n then s
  else
    { s with
      dir := s.dir.render n size
      host := (s.host.addFile n false).setFile n ⟨s.host.next,size,false,false⟩ }

/-- `consume_event_do_delete` -/
def hostDelete (n : Name) (s : Sync) : Sync :=
  if (s.host.fileByPath n).isSome then
    { s with dir := s.dir.unlink n,host := s.host.removeFile n }
  else s

/-- `filesystem_host_c::consume_event` -/
def hostConsume (e : DecEvent) (size : Nat) (s : Sync) : Sync :=
  match e.operation with
  | .create => s.hostCreate e.hostPath size
  | .modify => (s.hostDelete e.hostPath).hostCreate e.hostPath size
  | .delete => s.hostDelete e.hostPath

/-- `import_host_file` of the object of an event. Nothing is known of an object that was deleted. -/
def importFile (admitted : Bool) (e : HostEvent) (t : DecTree) (s : Sync) : Option DecTree := do
  let f ← s.host.fileByPath e.hostPath
  if some f.id=e.hostFile then t.importHostFile s.type admitted e.hostPath f.fileSize else none

/-- `filesystem_dec_c::consume_event` -/
def decConsume (admitted : Bool) (e : HostEvent) (s : Sync) : Option DecTree :=
  match e.operation with
  | .create => s.importFile admitted e s.decTree
  | .modify => s.importFile admitted e (s.decTree.deleteHostFile s.type e.hostPath)
  | .delete => pure (s.decTree.deleteHostFile s.type e.hostPath)

/-- `sync_dec_image_to_filesystem_and_events`. The parse asserts that no events are queued. -/
def parseImage (image : List ParsedFile) (s : Sync) : Option Sync := do
  assert s.decQueue.isEmpty
  let t := s.decTree.parse s.type image
  pure { s with decTree := t,decQueue := t.changeEvents s.snapshot,phase := .hostEvents }

/-- `update_host_volume_info`, when the volume has changed -/
def updateVolumeInfo (info : Nat) (s : Sync) : SharedDir :=
  let n := volumeInfoName s.type
  if s.decTree.changed then ((s.dir.create n).write n info).closeWrite n else s.dir

def finishPass (info : Nat) (s : Sync) : Sync :=
  if s.host.changed ∨ s.decTree.changed ∨ s.decImageChanged then
    { s with
      dir := s.updateVolumeInfo info,host := { s.host with changed := false }
      decTree := { s.decTree with changed := false },decImageChanged := false
      snapshot := s.decTree.copyMetadata s.snapshot,phase := .wait }
  else { s with dir := s.updateVolumeInfo info,phase := .wait }

def step (s : Sync) (a : Step) : Option Sync :=
  match a,s.phase with
  | .user op,_ => some { s with dir := op.apply s.dir }
  -- the lock keeps the PDP-11 off the image
  | .decWrite,.wait => some { s with decImageChanged := true }
  | .lock,.wait => some { s with phase := .poll }
  | .eval,.poll =>
    match s.dir.pending with
    | [] => none
    | (m,n)::rest => do
      let host ← s.host.inotifyEventEval s.dir m n
      pure { s with dir := { s.dir with pending := rest },host := host }
  | .polled stable,.poll =>
    if s.dir.pending.isEmpty then some { s with phase := if stable then .work else .wait } else none
  | .parse image,.work =>
    if s.decImageChanged then s.parseImage image else some { s with phase := .hostEvents }
  | .consumeHost admitted,.hostEvents =>
    match s.host.eventQueue with
    | [] => none
    | e::rest => do
      let t ← s.decConsume admitted (updateEvent s.dir e)
      pure { s with host := { s.host with eventQueue := rest },decTree := t }
  | .render,.hostEvents =>
    if s.host.eventQueue.isEmpty then some { s with phase := .decEvents } else none
  | .consumeDec size,.decEvents =>
    match s.decQueue with
    | [] => none
    | e::rest => some ({ s with decQueue := rest }.hostConsume e size)
  | .finish info,.decEvents =>
    if s.decQueue.isEmpty then some (s.finishPass info) else none
  | _,_ => none

/-- `open()`, with the files that the directory was cleared of: it does the first pass from the parse of the
image on. -/
def start (type : FilesystemType) (cleared : List Name) : Sync where
  type := type
  dir := ⟨fun _ => none,cleared.map fun n => (.delete,n)⟩
  host := ⟨fun _ => none,[],false,0⟩
  decTree := .empty
  decQueue := []
  snapshot := .empty
  decImageChanged := true
  phase := .work

/-- Every object that a queued event points at is still there, and a creation or modification consumed has the object
registered under its path, or a stream of the volume. -/
structure Sound (s : Sync) : Prop where
  host : ∀ e∈s.host.eventQueue,e.operation≠.delete → s.host.Registered e
  consumed : ∀ e∈s.host.eventQueue.head?,(updateEvent s.dir e).operation≠.delete →
    s.host.Registered (updateEvent s.dir e)
  dec : ∀ e∈s.decQueue,e.operation≠.delete → s.decTree.Owns e.decStream
  deleted : ∀ e∈s.decQueue,e.operation=.delete → s.snapshot.Owns e.decStream

/-- A step that deletes nothing under a queued event: no deletion or move is read of a file with a creation or
modification queued, and no host event is consumed that deletes a stream for which the volume has one queued. -/
def Keeps (s : Sync) (a : Step) : Prop :=
  match a with
  | .eval => ∀ x∈s.dir.pending.head?,x.1=.delete ∨ x.1=.movedFrom →
    ∀ e∈s.host.eventQueue,e.operation≠.delete → e.hostPath≠x.2
  | .consumeHost _ => ∀ e∈s.host.eventQueue.head?,(updateEvent s.dir e).operation≠.create →
    ∀ x∈s.decQueue,x.operation≠.delete → s.decTree.deletes s.type e.hostPath x.decStream=false
  | _ => True

instance : ∀ s a,Decidable (Keeps s a)
  | s,.eval => inferInstanceAs (Decidable (∀ x∈s.dir.pending.head?,
      x.1=.delete ∨ x.1=.movedFrom → ∀ e∈s.host.eventQueue,e.operation≠.delete → e.hostPath≠x.2))
  | s,.consumeHost _ => inferInstanceAs (Decidable (∀ e∈s.host.eventQueue.head?,
      (updateEvent s.dir e).operation≠.create → ∀ x∈s.decQueue,x.operation≠.delete →
        s.decTree.deletes s.type e.hostPath x.decStream=false))
  | _,.user _ | _,.decWrite | _,.lock | _,.polled _ | _,.parse _ | _,.render
  | _,.consumeDec _ | _,.finish _ => .isTrue trivial

end Sync

end QUniLator.Shared
