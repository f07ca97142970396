import GManager.Documents

/-!
# Documents between the database and the object store

`DocumentService` and `DocumentCleanupWorker` work on two stores: what a transaction does to the tables is
seen after its commit or not at all, what it does to the objects happens at once and stays after a
rollback. A transaction that runs is in `active`, and each event is one of its acts, so that events make up
every interleaving and every failure: `commit` may be refused, and `rollback` may come at any time. A row
lock is the check at the commit that the row is the one that was locked, since a lock keeps others from
writing it. `cleanup` locks nothing: it selects, deletes objects, and finds at its commit whether the rows
are still the ones that it selected.
-/

namespace GManager.Documents

structure Document where
  id : UUID
  resourceType : String
  resourceId : UUID
  deletedAt : Option Instant
  version : ℕ
  deriving DecidableEq, Repr

/-- `upload`, `storeGenerated` or `addVersion`: a version for a document that is new or locked. -/
structure Adding where
  document : Document
  created : Bool
  version : DocumentVersion
  bytes : Bytes
  stored : Bool
  deriving DecidableEq, Repr

/-- `cleanup`: the documents that it selected, those that are to come, and the objects of the present one that
are left. Under `REPEATABLE_READ` the versions are those of the snapshot. -/
structure Cleaning where
  selected : List Document
  todo : List Document
  current : UUID
  keys : List String
  snapshot : Option Versions

inductive Tx
  | adding (a : Adding)
  | deleting (d : Document) (now : Instant)
  | restoring (d : Document)
  | cleaning (c : Cleaning)

structure World where
  documents : Table Document.id
  versions : Versions
  objects : String → Option Bytes
  active : ℕ → Option Tx
  /-- The document for which a key was made. -/
  owner : String → Option UUID
  /-- What was uploaded under a key. -/
  uploads : String → Option Bytes
  /-- The keys whose objects a clean-up deleted. -/
  cleaned : List String

namespace World

def empty : World :=
  { documents := .empty, versions := .empty, objects := fun _ => none, active := fun _ => none
    owner := fun _ => none, uploads := fun _ => none, cleaned := [] }

def set (w : World) (n : ℕ) (tx : Option Tx) : World := { w with active := Function.update w.active n tx }

def versionsOf (t : Versions) (id : UUID) : List DocumentVersion := t.rows.filter fun v => v.documentId = id

/-- `storage.store`. -/
def store (w : World) (key : String) (bytes : Bytes) : World :=
  { w with
    objects := Function.update w.objects key (some bytes)
    uploads := Function.update w.uploads key (some bytes) }

/-- `storage.delete`. -/
def erase (w : World) (key : String) : World := { w with objects := Function.update w.objects key none }

/-- The document of a new version: it is inserted, or it was locked. -/
def saveDocument (w : World) (a : Adding) : Option (Table Document.id) :=
  if a.created then w.documents.insert a.document
  else if a.document ∈ w.documents.rows then some w.documents
  else none

/-- The inserts of a version and, if it is new, of its document. -/
def saveAdding (w : World) (a : Adding) : Option World := do
  let documents ← w.saveDocument a
  let versions ← w.versions.insert a.version
  if ∀ v ∈ w.versions.rows, v.documentId = a.version.documentId →
    v.versionNumber ≠ a.version.versionNumber then
    some { w with documents, versions }
  else none

/-- The update of a row that is locked. -/
def saveLocked (w : World) (d d' : Document) : Option World :=
  if d ∈ w.documents.rows then some { w with documents := w.documents.save d' } else none

/-- The deletes of the clean-up: every selected row must have the version that it had,
and its versions go with it. -/
def removeSelected (w : World) (selected : List Document) : Option World :=
  if ∀ d ∈ selected, ∃ row ∈ w.documents.rows, row.id = d.id ∧ row.version = d.version then
    some { w with
      documents := w.documents.delete fun row => row.id ∈ selected.map Document.id
      versions := w.versions.delete fun v => v.documentId ∈ selected.map Document.id }
  else none

/-- What a commit writes; a transaction that is not through has nothing to commit. -/
def commitTx (w : World) : Tx → Option World
  | .adding a => if a.stored then w.saveAdding a else none
  | .deleting d now => w.saveLocked d { d with deletedAt := some now, version := d.version + 1 }
  | .restoring d =>
    if d.deletedAt = none then w.saveLocked d d
    else w.saveLocked d { d with deletedAt := none, version := d.version + 1 }
  | .cleaning c => if c.todo = [] ∧ c.keys = [] then w.removeSelected c.selected else none

end World

inductive Event
  | upload (n : ℕ) (document : Document) (version : DocumentVersion) (bytes : Bytes) (quota : Option ℕ)
  | addVersion (n : ℕ) (expected : ℕ) (version : DocumentVersion) (bytes : Bytes)
  | store (n : ℕ)
  | discard (n : ℕ)
  | delete (n : ℕ) (id : UUID) (expected : ℕ) (now : Instant)
  | restore (n : ℕ) (id : UUID)
  | cleanup (n : ℕ) (cutoff : Instant) (repeatableRead : Bool)
  | nextDocument (n : ℕ)
  | deleteObject (n : ℕ)
  | commit (n : ℕ)
  | rollback (n : ℕ)
  | download

namespace World

/-- A new transaction, under a number that is not in use. -/
def begin (w : World) (n : ℕ) (tx : Tx) : Option World :=
  if (w.active n).isNone then some (w.set n (some tx)) else none

/-- A transaction that adds a version, under a key that was never made before. -/
def beginAdding (w : World) (n : ℕ) (a : Adding) : Option World :=
  if w.owner a.version.objectKey = none then
    ({ w with owner := Function.update w.owner a.version.objectKey (some a.version.documentId) } :
      World).begin n (.adding a)
  else none

/-- How many documents of the resource are not deleted. -/
def countActive (w : World) (type : String) (resource : UUID) : ℕ :=
  w.documents.rows.countP fun d => d.resourceType = type ∧ d.resourceId = resource ∧ d.deletedAt = none

/-- The number of the next version. -/
def nextNumber (w : World) (id : UUID) : ℕ :=
  ((versionsOf w.versions id).map DocumentVersion.versionNumber).foldl max 0 + 1

def step (w : World) : Event → Option World
  | .upload n d v bytes quota =>
    -- `storeGenerated` has no quota.
    if d.deletedAt = none ∧ v.documentId = d.id ∧ v.versionNumber = 1 ∧
        ∀ q ∈ quota, w.countActive d.resourceType d.resourceId < q then
      w.beginAdding n { document := d, created := true, version := v, bytes, stored := false }
    else none
  | .addVersion n expected v bytes => do
    let d ← w.documents.find? v.documentId
    if d.deletedAt = none ∧ d.version = expected ∧ v.versionNumber = w.nextNumber d.id then
      w.beginAdding n { document := d, created := false, version := v, bytes, stored := false }
    else none
  | .store n =>
    match w.active n with
    | some (.adding a) =>
      if a.stored then none
      else some ((w.store a.version.objectKey a.bytes).set n (some (.adding { a with stored := true })))
    | _ => none
  | .discard n =>
    match w.active n with
    | some (.adding a) => some ((w.erase a.version.objectKey).set n none)
    | _ => none
  | .delete n id expected now => do
    let d ← w.documents.find? id
    if d.version = expected then w.begin n (.deleting d now) else none
  | .restore n id => do
    let d ← w.documents.find? id
    w.begin n (.restoring d)
  | .cleanup n cutoff repeatableRead =>
    let selected := w.documents.rows.filter fun d => ∃ t ∈ d.deletedAt, t < cutoff
    w.begin n (.cleaning
      { selected, todo := selected, current := 0, keys := []
        snapshot := if repeatableRead then some w.versions else none })
  | .nextDocument n =>
    match w.active n with
    | some (.cleaning c) =>
      match c.keys, c.todo with
      | [], d :: todo => some (w.set n (some (.cleaning
          { c with todo, current := d.id, keys := (versionsOf (c.snapshot.getD w.versions)
            d.id).map (·.objectKey) })))
      | _, _ => none
    | _ => none
  | .deleteObject n =>
    match w.active n with
    | some (.cleaning c) =>
      match c.keys with
      | key :: keys =>
        some (({ w.erase key with cleaned := key :: w.cleaned } : World).set n
          (some (.cleaning { c with keys })))
      | [] => none
    | _ => none
  | .commit n => (w.active n).map fun tx => ((w.commitTx tx).getD w).set n none
  | .rollback n => some (w.set n none)
  | .download => some w

def run (w : World) (es : List Event) : Option World := es.foldlM step w

end World

end GManager.Documents
