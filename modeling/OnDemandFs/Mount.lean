import OnDemandFs.Broker
import OnDemandFs.Mapping
import OnDemandFs.Reading
import OnDemandFs.Resolve.Operations
import OnDemandFs.Settings

/-!
# A mount

Everything that one mounted tree needs: the view that operations work on, the broker that they ask
through, and the mappings. Two mounts share nothing.
-/
namespace OnDemandFs

/-- A file shown as memory: the node it was mapped for, the physical file and its length then. -/
structure Mapping where
  node : NodeId
  file : FileId
  length : Nat
deriving DecidableEq, Repr

structure Mount where
  settings : Settings
  view : View
  broker : Broker
  mappings : Arbiter FileId := []

structure MountStatus where
  attached : Bool
  queued : Nat
  inFlight : Nat
  counters : Counters
  identities : Nat
  indexCount : Nat
  indexCapacity : Nat
deriving DecidableEq, Repr

namespace Mount

/-- A mount over an existing cache root of the disk. -/
def openAt (d : Disk) (root : List Name) (settings : Settings) : Except Fault Mount := do
  let store ← Store.openAt d root settings.maxIndexBytes settings.indexCacheCapacity
  return {
    settings
    view := { store, revalidate := settings.revalidateFiles, started := d.clock.seconds }
    broker := { timeout := settings.timeout } }

theorem of_openAt {d : Disk} {root : List Name} {settings : Settings} {m : Mount}
    (hopen : openAt d root settings = .ok m) : ∃ place, m = {
      settings
      view := {
        store := ⟨place, settings.maxIndexBytes, d, { capacity := settings.indexCacheCapacity }⟩
        revalidate := settings.revalidateFiles
        started := d.clock.seconds }
      broker := { timeout := settings.timeout } } := by
  unfold openAt at hopen
  cases hstore : Store.openAt d root settings.maxIndexBytes settings.indexCacheCapacity with
  | error fault =>
      rw [hstore] at hopen
      cases hopen
  | ok store =>
      obtain ⟨place, rfl⟩ := Store.of_openAt hstore
      rw [hstore] at hopen
      cases hopen
      exact ⟨place, rfl⟩

def store (m : Mount) : Store := m.view.store

def disk (m : Mount) : Disk := m.view.store.disk

def setStore (m : Mount) (store : Store) : Mount := { m with view := { m.view with store } }

def setDisk (m : Mount) (disk : Disk) : Mount := m.setStore { m.view.store with disk }

/-- Trim the remembered indices to their capacity. -/
def trim (m : Mount) : Mount := m.setStore { m.store with indices := m.store.indices.trim }

def status (m : Mount) : MountStatus where
  attached := m.broker.isAttached
  queued := m.broker.queue.length
  inFlight := m.broker.inFlight.length
  counters := m.broker.counters
  identities := m.view.identities.count
  indexCount := m.store.indices.count
  indexCapacity := m.store.indices.capacity

/-- Positional reads of an opened file: always of its physical file, as it is now. -/
def readAt (m : Mount) (f : Opened) : Reading.ReadAt := Reading.ofContent (m.disk.content f.file)

def fileLength (m : Mount) (f : Opened) : Nat := (m.disk.content f.file).length

/-- Up to `size` bytes of an opened file, fewer only at its end. -/
def read (m : Mount) (f : Opened) (offset size : Nat) : Except Fault Bytes :=
  Reading.readFully (m.readAt f) offset size

def readToEnd (m : Mount) (f : Opened) : Except Fault Bytes :=
  Reading.readToEnd (m.readAt f) (m.fileLength f)

/-- Map an opened file, unless live mappings of its node show another file. The mapping is counted
before the system makes it, and given back if the system does not:
`made` is what the system says. -/
def map (m : Mount) (f : Opened) (made : Except IoFault Unit) : Except Fault Mapping × Mount :=
  match m.mappings.acquire f.node.id f.node.path.text f.file with
  | .error fault => (.error fault, m)
  | .ok granted =>
    match made with
    | .error cause => (.error (.io cause), { m with mappings := granted.release f.node.id })
    | .ok () => (.ok ⟨f.node.id, f.file, m.fileLength f⟩, { m with mappings := granted })

def unmap (m : Mount) (mapping : Mapping) : Mount :=
  { m with mappings := m.mappings.release mapping.node }

/-- What a mapping shows now: the content of its file, cut to the length at mapping time and filled
with zeros where the file has become shorter. -/
def mapped (m : Mount) (mapping : Mapping) : Bytes :=
  let bytes := (m.disk.content mapping.file).take mapping.length
  bytes ++ List.replicate (mapping.length - bytes.length) 0

end Mount
end OnDemandFs
