import GManager.Rows
import GManager.Growth
import Mathlib.Data.List.Sort

/-!
# Documents and the scans of their versions

A version of a document names an object in the storage and carries what the scanner said of it.
`DocumentScanWorker.scanPending` scans new versions and those whose last scan broke down;
`DocumentReconciliationWorker.reconcile` compares the stored bytes of every version with its checksum. What
an object-store or scanner call does is part of a run: it fails, or it gives bytes or a verdict.
-/

namespace GManager.Documents

inductive ScanStatus
  | pending | clean | rejected | error
  deriving DecidableEq, Repr

structure DocumentVersion where
  id : UUID
  documentId : UUID
  versionNumber : ℕ
  objectKey : String
  contentType : String
  checksumSha256 : String
  scanStatus : ScanStatus
  scanDetail : Option String
  scannedAt : Option Instant
  createdAt : Instant
  deriving DecidableEq, Repr

abbrev Versions := Table DocumentVersion.id

abbrev Bytes := List UInt8

structure ScanResult where
  clean : Bool
  detail : String
  deriving DecidableEq, Repr

/-! ### Scanning -/

/-- One run of `scanPending`: when it starts, what its calls do, and when it marks a version. -/
structure ScanRun where
  now : Instant
  read : String → Option Bytes
  scan : Bytes → String → Option ScanResult
  markedAt : UUID → Instant

/-- What the scanner says of a version, if its object is read and scanned. -/
def ScanRun.verdict (r : ScanRun) (v : DocumentVersion) : Option ScanResult :=
  (r.read v.objectKey).bind fun bytes => r.scan bytes v.contentType

def unavailable : String := "Scanner unavailable"

/-- `findTop50ByScanStatusOrderByCreatedAtAsc` of the status PENDING. -/
def pendingBatch (t : Versions) : List DocumentVersion :=
  ((t.rows.filter fun v : DocumentVersion => v.scanStatus = .pending).insertionSort
    fun v v' => v.createdAt ≤ v'.createdAt).take 50

/-- Whether the last scan broke down before `cutoff`. -/
def DocumentVersion.retryable (v : DocumentVersion) (cutoff : Instant) : Prop :=
  v.scanStatus = .error ∧ v.scanDetail = some unavailable ∧ ∃ s ∈ v.scannedAt, s < cutoff

instance (v : DocumentVersion) (cutoff : Instant) : Decidable (v.retryable cutoff) :=
  inferInstanceAs (Decidable (_ ∧ _ ∧ _))

/-- `findTop50ByScanStatusAndScanDetailAndScannedAtBeforeOrderByScannedAtAsc` of those. -/
def retryBatch (t : Versions) (cutoff : Instant) : List DocumentVersion :=
  ((t.rows.filter fun v : DocumentVersion => v.retryable cutoff).insertionSort
    fun v v' => v.scannedAt.getD 0 ≤ v'.scannedAt.getD 0).take 50

def DocumentVersion.judged (v : DocumentVersion) (result : ScanResult) (time : Instant) : DocumentVersion :=
  { v with
    scanStatus := if result.clean then .clean else .rejected
    scanDetail := some result.detail
    scannedAt := some time }

def DocumentVersion.brokenOff (v : DocumentVersion) (time : Instant) : DocumentVersion :=
  { v with scanStatus := .error, scanDetail := some unavailable, scannedAt := some time }

@[simp] theorem DocumentVersion.judged_id (v : DocumentVersion) (result : ScanResult) (time : Instant) :
    (v.judged result time).id = v.id := rfl

@[simp] theorem DocumentVersion.brokenOff_id (v : DocumentVersion) (time : Instant) :
    (v.brokenOff time).id = v.id := rfl

/-- The loop of `scanPending`: it stops at the first scan that breaks down. -/
def scanBatch (r : ScanRun) : List DocumentVersion → Versions → Versions
  | [], t => t
  | v :: vs, t =>
    match r.verdict v with
    | some result => scanBatch r vs (t.save (v.judged result (r.markedAt v.id)))
    | none => t.save (v.brokenOff (r.markedAt v.id))

/-- `scanPending`. -/
def scanPending (r : ScanRun) (t : Versions) : Versions :=
  scanBatch r (pendingBatch t ++ retryBatch t (r.now.plusSeconds (-60))) t

/-! ### Reconciling -/

variable (sha256 : Bytes → String)

/-- Whether the object of a version is read and has its checksum. -/
def DocumentVersion.valid (v : DocumentVersion) (read : String → Option Bytes) : Bool :=
  (read v.objectKey).any fun bytes => sha256 bytes = v.checksumSha256

def mismatched : String := "Storage reconciliation failed"

/-- One version in the loop of `reconcile`. -/
def DocumentVersion.reconciled (v : DocumentVersion) (read : String → Option Bytes) : DocumentVersion :=
  if v.valid sha256 read then v else { v with scanStatus := .error, scanDetail := some mismatched }

theorem DocumentVersion.reconciled_id (v : DocumentVersion) (read : String → Option Bytes) :
    (v.reconciled sha256 read).id = v.id := by
  unfold DocumentVersion.reconciled
  split <;> rfl

/-- `reconcile`. -/
def reconcile (read : String → Option Bytes) (t : Versions) : Versions :=
  t.edit (fun v => v.reconciled sha256 read) fun v => v.reconciled_id sha256 read

/-! ### Runs -/

inductive WorkerRun
  | scanPending (r : ScanRun)
  | reconcile (read : String → Option Bytes)

def WorkerRun.perform (t : Versions) : WorkerRun → Versions
  | .scanPending r => Documents.scanPending r t
  | .reconcile read => Documents.reconcile sha256 read t

def runs (t : Versions) (rs : List WorkerRun) : Versions := rs.foldl (WorkerRun.perform sha256) t

end GManager.Documents
