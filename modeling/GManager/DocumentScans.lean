import GManager.Documents

/-!
# Scans after an outage

A version whose scan broke down is scanned again. One that `reconcile` could not read is not: it is marked
like a version whose bytes are wrong, and only the detail `Scanner unavailable` is retried. So the versions
that recover from outages of the storage and the scanner are those that no reconciliation failed to read.
-/

namespace GManager.Documents

open Table

variable {t t' : Versions} {v v' : DocumentVersion}

/-! ### One run of the scans -/

/-- What a scan makes of a version. -/
inductive Scanned (r : ScanRun) (v : DocumentVersion) : DocumentVersion → Prop
  | judged {result : ScanResult} (h : r.verdict v = some result) :
      Scanned r v (v.judged result (r.markedAt v.id))
  | brokenOff (h : r.verdict v = none) : Scanned r v (v.brokenOff (r.markedAt v.id))

theorem Scanned.id {r : ScanRun} (h : Scanned r v v') : v'.id = v.id := by
  cases h <;> rfl

/-- The loop scans the versions of the batch, and leaves one of them out only if a scan broke down. -/
theorem scanBatch_grows (r : ScanRun) {vs : List DocumentVersion} (hmem : ∀ v ∈ vs, v ∈ t)
    (hnodup : (vs.map DocumentVersion.id).Nodup) :
    t.Grows (fun v v' => (v' = v ∧ (v ∈ vs → ∃ x ∈ vs, r.verdict x = none)) ∨ v ∈ vs ∧ Scanned r v v')
      (fun _ => False) (scanBatch r vs t) := by
  induction vs generalizing t with
  | nil =>
    exact (Grows.refl (fun _ => rfl) t).mono (fun v v' h => .inl ⟨h.symm, fun h => by cases h⟩) fun _ h => h
  | cons v vs ih =>
    have hv : v ∈ t := hmem v List.mem_cons_self
    rw [List.map_cons, List.nodup_cons] at hnodup
    unfold scanBatch
    cases hverdict : r.verdict v with
    | none =>
      refine (Grows.saved (N := fun _ => False) hv (v.brokenOff_id _)).mono ?_ fun _ h => h
      rintro a b (⟨rfl, rfl⟩ | ⟨-, rfl⟩)
      · exact .inr ⟨List.mem_cons_self, .brokenOff hverdict⟩
      · exact .inl ⟨rfl, fun _ => ⟨v, List.mem_cons_self, hverdict⟩⟩
    | some result =>
      have hrest : ∀ x ∈ vs, x ∈ t ∧ x.id ≠ v.id := fun x hx =>
        ⟨hmem x (List.mem_cons_of_mem _ hx), fun h => hnodup.1 (h ▸ List.mem_map_of_mem hx)⟩
      have hsaved : ∀ x ∈ vs, x ∈ t.save (v.judged result (r.markedAt v.id)) :=
        fun x hx => (mem_save_of_mem hv (v.judged_id ..)).2 (.inr (hrest x hx))
      refine ((Grows.saved (N := fun _ => False) hv (v.judged_id ..)).comp (ih hsaved hnodup.2)).mono ?_
        fun _ h => h
      rintro a c ⟨b, -, hab, hbc⟩
      rcases hab with ⟨rfl, rfl⟩ | ⟨hne, rfl⟩
      · -- The version is written once: its id does not come again in the batch.
        rcases hbc with ⟨rfl, -⟩ | ⟨hmem', -⟩
        · exact .inr ⟨List.mem_cons_self, .judged hverdict⟩
        · exact absurd rfl (hrest _ hmem').2
      · rcases hbc with ⟨rfl, hbroken⟩ | ⟨hmem', hscanned⟩
        · refine .inl ⟨rfl, fun h => ?_⟩
          rcases List.mem_cons.1 h with rfl | h
          · exact absurd rfl hne
          · obtain ⟨x, hx, hnone⟩ := hbroken h
            exact ⟨x, List.mem_cons_of_mem _ hx, hnone⟩
        · exact .inr ⟨List.mem_cons_of_mem _ hmem', hscanned⟩

/-- What a scan is due for: it is new, or its last scan broke down. -/
def DocumentVersion.Due (v : DocumentVersion) : Prop :=
  v.scanStatus = .pending ∨ v.scanStatus = .error ∧ v.scanDetail = some unavailable

def batch (r : ScanRun) (t : Versions) : List DocumentVersion :=
  pendingBatch t ++ retryBatch t (r.now.plusSeconds (-60))

theorem mem_pendingBatch (h : v ∈ pendingBatch t) : v ∈ t ∧ v.scanStatus = .pending := by
  have := (List.perm_insertionSort _ _).mem_iff.1 (List.mem_of_mem_take h)
  simpa [mem_rows] using List.mem_filter.1 this

theorem mem_retryBatch {cutoff : Instant} (h : v ∈ retryBatch t cutoff) : v ∈ t ∧ v.retryable cutoff := by
  have := (List.perm_insertionSort _ _).mem_iff.1 (List.mem_of_mem_take h)
  simpa [mem_rows] using List.mem_filter.1 this

theorem mem_batch {r : ScanRun} (h : v ∈ batch r t) : v ∈ t ∧ v.Due := by
  rcases List.mem_append.1 h with h | h
  · exact ⟨(mem_pendingBatch h).1, .inl (mem_pendingBatch h).2⟩
  · obtain ⟨hmem, hstatus, hdetail, -⟩ := mem_retryBatch h
    exact ⟨hmem, .inr ⟨hstatus, hdetail⟩⟩

theorem nodup_batch_part {p : DocumentVersion → Prop} [DecidablePred p]
    {le : DocumentVersion → DocumentVersion → Prop} [DecidableRel le] (n : ℕ) :
    ((((t.rows.filter fun v => p v).insertionSort le).take n).map DocumentVersion.id).Nodup := by
  have hfilter : ((t.rows.filter fun v => p v).map DocumentVersion.id).Nodup :=
    t.nodup.sublist (List.filter_sublist.map _)
  have hsorted :=
    ((List.perm_insertionSort le (t.rows.filter fun v => p v)).map DocumentVersion.id).nodup_iff.2 hfilter
  exact hsorted.sublist ((List.take_sublist _ _).map _)

theorem nodup_batch (r : ScanRun) (t : Versions) : ((batch r t).map DocumentVersion.id).Nodup := by
  rw [batch, List.map_append, List.nodup_append]
  refine ⟨nodup_batch_part 50, nodup_batch_part 50, fun i hi j hj hij => ?_⟩
  obtain ⟨v, hv, rfl⟩ := List.mem_map.1 hi
  obtain ⟨v', hv', rfl⟩ := List.mem_map.1 hj
  obtain ⟨hmem, hpending⟩ := mem_pendingBatch hv
  obtain ⟨hmem', hretry⟩ := mem_retryBatch hv'
  rw [Table.eq_of_key hmem hmem' hij, hretry.1] at hpending
  cases hpending

theorem scanPending_grows (r : ScanRun) (t : Versions) :
    t.Grows (fun v v' => (v' = v ∧ (v ∈ batch r t → ∃ x ∈ batch r t, r.verdict x = none)) ∨
      v ∈ batch r t ∧ Scanned r v v') (fun _ => False) (scanPending r t) :=
  scanBatch_grows r (fun _ h => (mem_batch h).1) (nodup_batch r t)

theorem batch_ne_nil {r : ScanRun} (hv : v ∈ t)
    (h : v.scanStatus = .pending ∨ v.retryable (r.now.plusSeconds (-60))) : batch r t ≠ [] := by
  have hpart :
    ∀ {p : DocumentVersion → Prop} [DecidablePred p] (le : DocumentVersion → DocumentVersion → Prop)
      [DecidableRel le], p v → ((t.rows.filter fun v => p v).insertionSort le).take 50 ≠ [] := by
    intro p _ le _ hp hnil
    have hmem : v ∈ (t.rows.filter fun v => p v).insertionSort le :=
      (List.perm_insertionSort _ _).mem_iff.2 (List.mem_filter.2 ⟨hv, by simpa using hp⟩)
    rcases List.take_eq_nil_iff.1 hnil with h0 | hnil
    · cases h0
    · rw [hnil] at hmem
      cases hmem
  intro hnil
  obtain ⟨hpending, hretry⟩ := List.append_eq_nil_iff.1 hnil
  rcases h with h | h
  · exact hpart _ h hpending
  · exact hpart _ h hretry

/-! ### The fate of a version -/

section fates

variable (sha256 : Bytes → String)

/-- What a run of a worker may make of a version. -/
inductive Fate : WorkerRun → DocumentVersion → DocumentVersion → Prop
  | kept (r : ScanRun) (v : DocumentVersion) : Fate (.scanPending r) v v
  | scanned {r : ScanRun} {v v' : DocumentVersion} (hdue : v.Due) (h : Scanned r v v') :
      Fate (.scanPending r) v v'
  | reconciled (read : String → Option Bytes) (v : DocumentVersion) :
      Fate (.reconcile read) v (v.reconciled sha256 read)

theorem perform_grows (r : WorkerRun) (t : Versions) :
    t.Grows (Fate sha256 r) (fun _ => False) (r.perform sha256 t) := by
  cases r with
  | scanPending r =>
    refine (scanPending_grows r t).mono ?_ fun _ h => h
    rintro v v' (⟨rfl, -⟩ | ⟨hmem, hscanned⟩)
    · exact .kept r v'
    · exact .scanned (mem_batch hmem).2 hscanned
  | reconcile read => exact .edit (fun v => v.reconciled_id sha256 read) fun v _ => .reconciled read v

def Chain : List WorkerRun → DocumentVersion → DocumentVersion → Prop
  | [], v, v' => v' = v
  | r :: rs, v, v' => ∃ u, Fate sha256 r v u ∧ Chain rs u v'

theorem runs_grows (rs : List WorkerRun) (t : Versions) :
    t.Grows (Chain sha256 rs) (fun _ => False) (runs sha256 t rs) := by
  induction rs generalizing t with
  | nil => exact (Grows.refl (fun _ => rfl) t).mono (fun _ _ h => h.symm) fun _ h => h
  | cons r rs ih =>
    refine ((perform_grows sha256 r t).comp (ih _)).mono ?_ fun _ h => h
    rintro v v' ⟨u, -, hvu, huv'⟩
    exact ⟨u, hvu, huv'⟩

/-- What no run changes of a version. -/
structure Alike (v v' : DocumentVersion) : Prop where
  id : v'.id = v.id
  objectKey : v'.objectKey = v.objectKey
  contentType : v'.contentType = v.contentType
  checksum : v'.checksumSha256 = v.checksumSha256

variable {sha256}

theorem Fate.alike {r : WorkerRun} (h : Fate sha256 r v v') : Alike v v' := by
  cases h with
  | kept => exact ⟨rfl, rfl, rfl, rfl⟩
  | scanned _ h => cases h <;> exact ⟨rfl, rfl, rfl, rfl⟩
  | reconciled read =>
    unfold DocumentVersion.reconciled
    split <;> exact ⟨rfl, rfl, rfl, rfl⟩

theorem Alike.verdict (h : Alike v v') (r : ScanRun) : r.verdict v' = r.verdict v := by
  rw [ScanRun.verdict, ScanRun.verdict, h.objectKey, h.contentType]

theorem Chain.alike {rs : List WorkerRun} (h : Chain sha256 rs v v') : Alike v v' := by
  induction rs generalizing v with
  | nil =>
    cases h
    exact ⟨rfl, rfl, rfl, rfl⟩
  | cons r rs ih =>
    obtain ⟨u, hvu, huv'⟩ := h
    have h := hvu.alike
    have h' := ih huv'
    exact ⟨h'.id.trans h.id, h'.objectKey.trans h.objectKey, h'.contentType.trans h.contentType,
      h'.checksum.trans h.checksum⟩

/-! ### Quarantine for good -/

/-- Marked by a reconciliation. -/
def DocumentVersion.Stuck (v : DocumentVersion) : Prop :=
  v.scanStatus = .error ∧ v.scanDetail = some mismatched

theorem Fate.stuck {r : WorkerRun} (h : Fate sha256 r v v') (hv : v.Stuck) : v'.Stuck := by
  cases h with
  | kept => exact hv
  | scanned hdue =>
    rcases hdue with hdue | ⟨-, hdue⟩
    · rw [hv.1] at hdue
      cases hdue
    · rw [hv.2] at hdue
      exact absurd hdue (by decide)
  | reconciled read =>
    unfold DocumentVersion.reconciled
    split
    · exact hv
    · exact ⟨rfl, rfl⟩

theorem Chain.stuck {rs : List WorkerRun} (h : Chain sha256 rs v v') (hv : v.Stuck) : v'.Stuck := by
  induction rs generalizing v with
  | nil =>
    cases h
    exact hv
  | cons r rs ih =>
    obtain ⟨u, hvu, huv'⟩ := h
    exact ih huv' (hvu.stuck hv)

/-- A reconciliation that cannot read an object marks its version, and no later run takes the mark away. -/
theorem Chain.stuck_of_unread {rs : List WorkerRun} (h : Chain sha256 rs v v') {read : String → Option Bytes}
    (hmem : .reconcile read ∈ rs) (hread : read v.objectKey = none) : v'.Stuck := by
  induction rs generalizing v with
  | nil => cases hmem
  | cons r rs ih =>
    obtain ⟨u, hvu, huv'⟩ := h
    rcases List.mem_cons.1 hmem with rfl | hmem
    · cases hvu
      refine Chain.stuck huv' ?_
      rw [DocumentVersion.reconciled, if_neg (by simp [DocumentVersion.valid, hread])]
      exact ⟨rfl, rfl⟩
    · exact ih huv' hmem (hvu.alike.objectKey ▸ hread)

/-! ### Only what was scanned clean is clean -/

theorem Chain.clean {rs : List WorkerRun} (h : Chain sha256 rs v v') (hclean : v'.scanStatus = .clean) :
    v.scanStatus = .clean ∨ ∃ r, .scanPending r ∈ rs ∧ ∃ result ∈ r.verdict v, result.clean = true := by
  induction rs generalizing v with
  | nil =>
    cases h
    exact .inl hclean
  | cons r rs ih =>
    obtain ⟨u, hvu, huv'⟩ := h
    rcases ih huv' with hu | ⟨r', hmem, result, hresult, hrc⟩
    · cases hvu with
      | kept => exact .inl hu
      | scanned hdue hscanned =>
        cases hscanned with
        | @judged result hresult =>
          refine .inr ⟨_, List.mem_cons_self, result, hresult, ?_⟩
          by_contra hn
          simp [DocumentVersion.judged, hn] at hu
        | brokenOff => cases hu
      | reconciled read =>
        unfold DocumentVersion.reconciled at hu
        split at hu
        · exact .inl hu
        · cases hu
    · rw [hvu.alike.verdict] at hresult
      exact .inr ⟨r', List.mem_cons_of_mem _ hmem, result, hresult, hrc⟩

/-! ### Recovery -/

section recovery

variable (sha256) (stored : String → Option Bytes)

/-- The calls of the run fail for the version or do what they should: they give the stored
bytes and a clean verdict. -/
def Temporary (v : DocumentVersion) : WorkerRun → Prop
  | .scanPending r => ∀ result ∈ r.verdict v, result.clean = true
  | .reconcile read => read v.objectKey = none ∨ read v.objectKey = stored v.objectKey

/-- The calls of the run succeed for the version. -/
def Working (v : DocumentVersion) : WorkerRun → Prop
  | .scanPending r => ∃ result ∈ r.verdict v, result.clean = true
  | .reconcile read => read v.objectKey = stored v.objectKey

/-- The run is one of `reconcile`, or starts more than a minute after `last`. -/
def After (last : Instant) : WorkerRun → Prop
  | .scanPending r => last.plusSeconds 60 < r.now
  | .reconcile _ => True

def WorkerRun.isScan : WorkerRun → Bool
  | .scanPending _ => true
  | .reconcile _ => false

/-- The stored bytes match the checksum. -/
def Matching (v : DocumentVersion) : Prop := ∃ bytes ∈ stored v.objectKey, sha256 bytes = v.checksumSha256

/-- New, clean, or marked when a scan broke down at `last` at the latest. -/
def DocumentVersion.Hopeful (last : Instant) (v : DocumentVersion) : Prop :=
  v.scanStatus = .clean ∨ v.scanStatus = .pending ∨
    v.scanStatus = .error ∧ v.scanDetail = some unavailable ∧ ∃ s ∈ v.scannedAt, s ≤ last

/-- The versions that still are not clean. -/
def unfinished (t : Versions) : ℕ := t.rows.countP fun v => v.scanStatus ≠ .clean

variable {sha256} {stored} {last : Instant}

theorem Matching.alike (h : Matching sha256 stored v) (ha : Alike v v') : Matching sha256 stored v' := by
  obtain ⟨bytes, hbytes, hsum⟩ := h
  exact ⟨bytes, ha.objectKey ▸ hbytes, hsum.trans ha.checksum.symm⟩

theorem Working.alike {r : WorkerRun} (h : Working stored v r) (ha : Alike v v') : Working stored v' r := by
  cases r with
  | scanPending r =>
    obtain ⟨result, hresult, hclean⟩ := h
    exact ⟨result, (ha.verdict r).symm ▸ hresult, hclean⟩
  | reconcile read =>
    show read v'.objectKey = stored v'.objectKey
    rw [ha.objectKey]
    exact h

theorem reconciled_of_read (hm : Matching sha256 stored v) {read : String → Option Bytes}
    (h : read v.objectKey = stored v.objectKey) : v.reconciled sha256 read = v := by
  obtain ⟨bytes, hbytes, hsum⟩ := hm
  rw [DocumentVersion.reconciled, if_pos]
  rw [DocumentVersion.valid, h, hbytes]
  simp [hsum]

/-- A run that works leaves a version as it is or makes it clean. -/
theorem Fate.working {r : WorkerRun} (h : Fate sha256 r v v') (hm : Matching sha256 stored v)
    (hw : Working stored v r) : v' = v ∨ v'.scanStatus = .clean := by
  cases h with
  | kept => exact .inl rfl
  | scanned hdue hscanned =>
    obtain ⟨result, hresult, hclean⟩ := hw
    cases hscanned with
    | judged h =>
      rw [h] at hresult
      cases hresult
      exact .inr (by simp [DocumentVersion.judged, hclean])
    | brokenOff h =>
      rw [h] at hresult
      cases hresult
  | reconciled read => exact .inl (reconciled_of_read hm hw)

/-- The versions of a table as a run of workers needs them. -/
structure Recovering (sha256 : Bytes → String) (stored : String → Option Bytes) (last : Instant)
    (t : Versions) : Prop where
  hopeful : ∀ v ∈ t, v.Hopeful last
  matching : ∀ v ∈ t, Matching sha256 stored v

theorem unfinished_le_length (t : Versions) : unfinished t ≤ t.rows.length := List.countP_le_length

theorem clean_of_unfinished (h : unfinished t = 0) (hv : v ∈ t) : v.scanStatus = .clean := by
  have := List.countP_eq_zero.1 h v hv
  simpa using this

theorem Recovering.step {r : WorkerRun} (h : Recovering sha256 stored last t)
    (hw : ∀ v ∈ t, Working stored v r) : Recovering sha256 stored last (r.perform sha256 t) := by
  have hg := perform_grows sha256 r t
  constructor
  · intro v' hv'
    obtain ⟨v, hv, hfate⟩ := (hg.mem hv').resolve_right id
    rcases hfate.working (h.matching v hv) (hw v hv) with rfl | hclean
    · exact h.hopeful v' hv
    · exact .inl hclean
  · intro v' hv'
    obtain ⟨v, hv, hfate⟩ := (hg.mem hv').resolve_right id
    exact (h.matching v hv).alike hfate.alike

/-- A run that works does not undo a clean verdict. -/
theorem Recovering.unfinished_le {r : WorkerRun} (h : Recovering sha256 stored last t)
    (hw : ∀ v ∈ t, Working stored v r) : unfinished (r.perform sha256 t) ≤ unfinished t := by
  refine (perform_grows sha256 r t).countP_le fun v hv v' hfate hopen => ?_
  rcases hfate.working (h.matching v hv) (hw v hv) with rfl | hclean
  · exact hopen
  · simp [hclean] at hopen

/-- A scan that works gets on with what is unfinished. -/
theorem Recovering.unfinished_lt {r : ScanRun} (h : Recovering sha256 stored last t)
    (hw : ∀ v ∈ t, Working stored v (.scanPending r)) (hafter : last.plusSeconds 60 < r.now)
    (hpos : unfinished t ≠ 0) : unfinished (scanPending r t) < unfinished t := by
  obtain ⟨v, hv, hopen⟩ : ∃ v ∈ t, v.scanStatus ≠ .clean := by
    by_contra hn
    push Not at hn
    exact hpos (List.countP_eq_zero.2 fun v hv => by simp [hn v hv])
  have hdue : v.scanStatus = .pending ∨ v.retryable (r.now.plusSeconds (-60)) := by
    rcases h.hopeful v hv with hc | hp | ⟨hs, hd, s, hat, hle⟩
    · exact absurd hc hopen
    · exact .inl hp
    · refine .inr ⟨hs, hd, s, hat, ?_⟩
      grind [Instant.plusSeconds]
  obtain ⟨x, hx⟩ := List.exists_mem_of_ne_nil _ (batch_ne_nil hv hdue)
  obtain ⟨hxt, hxdue⟩ := mem_batch hx
  have hxopen : x.scanStatus ≠ .clean := by
    rcases hxdue with h | ⟨h, -⟩ <;> rw [h] <;> decide
  have hverdict : ∀ y ∈ batch r t, r.verdict y ≠ none := by
    intro y hy hnone
    obtain ⟨result, hresult, -⟩ := hw y (mem_batch hy).1
    rw [hnone] at hresult
    cases hresult
  refine (scanPending_grows r t).countP_lt (r := x) (fun v hv v' hfate hopen => ?_) hxt
    (by simpa using hxopen) fun x' hfate => ?_
  · rcases hfate with ⟨rfl, -⟩ | ⟨hmem, hscanned⟩
    · exact hopen
    · have hfate : Fate sha256 (.scanPending r) v v' := .scanned (mem_batch hmem).2 hscanned
      rcases hfate.working (h.matching v hv) (hw v hv) with rfl | hclean
      · exact hopen
      · simp [hclean] at hopen
  · rcases hfate with ⟨-, hbroken⟩ | ⟨-, hscanned⟩
    · obtain ⟨y, hy, hnone⟩ := hbroken hx
      exact absurd hnone (hverdict y hy)
    · obtain ⟨result, hresult, hclean⟩ := hw x hxt
      cases hscanned with
      | judged h =>
        rw [h] at hresult
        cases hresult
        simp [DocumentVersion.judged, hclean]
      | brokenOff h => exact absurd h (hverdict x hx)

/-- As many scans as there are versions finish all that is unfinished. -/
theorem Recovering.run {more : List WorkerRun} (h : Recovering sha256 stored last t)
    (hw : ∀ r ∈ more, After last r ∧ ∀ v ∈ t, Working stored v r)
    (hscans : unfinished t ≤ more.countP WorkerRun.isScan) :
    ∀ v ∈ runs sha256 t more, v.scanStatus = .clean := by
  induction more generalizing t with
  | nil => exact fun v hv => clean_of_unfinished (t := t) (by simpa using hscans) hv
  | cons r more ih =>
    obtain ⟨hafter, hwork⟩ := hw r List.mem_cons_self
    refine ih (h.step hwork) (fun r' hr' => ⟨(hw r' (List.mem_cons_of_mem _ hr')).1, fun v' hv' => ?_⟩) ?_
    · obtain ⟨v, hv, hfate⟩ := ((perform_grows sha256 r t).mem hv').resolve_right id
      exact ((hw r' (List.mem_cons_of_mem _ hr')).2 v hv).alike hfate.alike
    · have hle := h.unfinished_le hwork
      cases r with
      | reconcile read =>
        rw [List.countP_cons] at hscans
        simp only [WorkerRun.isScan, Bool.false_eq_true, if_false, add_zero] at hscans
        exact hle.trans hscans
      | scanPending r =>
        rw [List.countP_cons] at hscans
        simp only [WorkerRun.isScan, if_true] at hscans
        by_cases h0 : unfinished t = 0
        · rw [h0] at hle
          omega
        · have hlt : unfinished ((WorkerRun.scanPending r).perform sha256 t) < unfinished t :=
            h.unfinished_lt hwork hafter h0
          omega

/-- New, clean, or marked when a scan broke down. -/
def DocumentVersion.Sane (v : DocumentVersion) : Prop :=
  v.scanStatus = .clean ∨ v.scanStatus = .pending ∨
    v.scanStatus = .error ∧ v.scanDetail = some unavailable ∧ v.scannedAt.isSome

theorem Fate.sane {r : WorkerRun} (h : Fate sha256 r v v') (hm : Matching sha256 stored v)
    (ht : Temporary stored v r) (hread : ∀ read, r = .reconcile read → read v.objectKey ≠ none)
    (hv : v.Sane) : v'.Sane := by
  cases h with
  | kept => exact hv
  | scanned hdue hscanned =>
    cases hscanned with
    | judged h => exact .inl (by simp [DocumentVersion.judged, ht _ h])
    | brokenOff h => exact .inr (.inr ⟨rfl, rfl, rfl⟩)
  | reconciled read =>
    rw [reconciled_of_read hm (ht.resolve_left (hread read rfl))]
    exact hv

theorem Temporary.alike {r : WorkerRun} (h : Temporary stored v r) (ha : Alike v v') :
    Temporary stored v' r := by
  cases r with
  | scanPending r => exact fun result hresult => h result ((ha.verdict r) ▸ hresult)
  | reconcile read =>
    show read v'.objectKey = none ∨ read v'.objectKey = stored v'.objectKey
    rw [ha.objectKey]
    exact h

theorem Chain.sane {rs : List WorkerRun} (h : Chain sha256 rs v v') (hm : Matching sha256 stored v)
    (ht : ∀ r ∈ rs, Temporary stored v r) (hread : ∀ read, .reconcile read ∈ rs → read v.objectKey ≠ none)
    (hv : v.Sane) : v'.Sane := by
  induction rs generalizing v with
  | nil =>
    cases h
    exact hv
  | cons r rs ih =>
    obtain ⟨u, hvu, huv'⟩ := h
    have ha := hvu.alike
    refine ih huv' (hm.alike ha) (fun r' hr' => (ht r' (List.mem_cons_of_mem _ hr')).alike ha)
      (fun read hmem => ?_) (hvu.sane hm (ht r List.mem_cons_self)
        (fun read hr => hread read (hr ▸ List.mem_cons_self)) hv)
    rw [ha.objectKey]
    exact hread read (List.mem_cons_of_mem _ hmem)

variable (sha256 stored) in
/-- After the calls work again, as many scans as there are versions make every version clean. -/
def Recovers (t : Versions) : Prop :=
  ∀ last more, (∀ v ∈ t, ∀ s ∈ v.scannedAt, s ≤ last) →
    (∀ r ∈ more, After last r ∧ ∀ v ∈ t, Working stored v r) →
    t.rows.length ≤ more.countP WorkerRun.isScan → ∀ v ∈ runs sha256 t more, v.scanStatus = .clean

theorem exists_last (t : Versions) : ∃ last : Instant, ∀ v ∈ t, ∀ s ∈ v.scannedAt, s ≤ last := by
  have hrows : ∀ rows : List DocumentVersion, ∃ last : Instant, ∀ v ∈ rows, ∀ s ∈ v.scannedAt, s ≤ last := by
    intro rows
    induction rows with
    | nil => exact ⟨0, fun v hv => by cases hv⟩
    | cons v rows ih =>
      obtain ⟨last, hlast⟩ := ih
      refine ⟨max last (v.scannedAt.getD last), fun x hx s hs => ?_⟩
      rcases List.mem_cons.1 hx with rfl | hx
      · rw [Option.mem_def.1 hs]
        exact le_max_right _ _
      · exact (hlast x hx s hs).trans (le_max_left _ _)
  exact hrows t.rows

/-- A run in which every call works. -/
def goodScan (stored : String → Option Bytes) (last : Instant) : ScanRun :=
  { now := last.plusSeconds 61, read := stored, scan := fun _ _ => some ⟨true, "Signature scan clean"⟩,
    markedAt := fun _ => last }

theorem goodScan_working (hm : Matching sha256 stored v) :
    Working stored v (.scanPending (goodScan stored last)) := by
  obtain ⟨bytes, hbytes, -⟩ := hm
  exact ⟨⟨true, "Signature scan clean"⟩, by simp [ScanRun.verdict, goodScan, Option.mem_def.1 hbytes], rfl⟩

/-- A version that is marked by a reconciliation never becomes clean. -/
theorem not_recovers_of_stuck (hm : ∀ v ∈ t, Matching sha256 stored v) (hv : v ∈ t) (hstuck : v.Stuck) :
    ¬ Recovers sha256 stored t := by
  intro h
  obtain ⟨last, hlast⟩ := exists_last t
  obtain ⟨v', hv', hchain⟩ :=
    (runs_grows sha256 (List.replicate t.rows.length (.scanPending (goodScan stored last))) t).kept hv
  have hclean := h last _ hlast (fun r hr => ?_) (by simp [List.countP_replicate, WorkerRun.isScan]) v' hv'
  · rw [(hchain.stuck hstuck).1] at hclean
    cases hclean
  · rw [List.eq_of_mem_replicate hr]
    refine ⟨?_, fun v hv => goodScan_working (hm v hv)⟩
    show last.plusSeconds 60 < last.plusSeconds 61
    grind [Instant.plusSeconds, microsPerSecond]

end recovery

end fates

/-- At no time is a version clean that was not scanned clean, or clean from the start; and after an outage all
versions recover exactly when no reconciliation failed to read one. -/
theorem scans_recover {sha256 : Bytes → String} {stored : String → Option Bytes} (t : Versions)
    (hmatching : ∀ v ∈ t, Matching sha256 stored v) :
    (∀ rs, ∀ v' ∈ runs sha256 t rs, v'.scanStatus = .clean → ∃ v ∈ t, v.id = v'.id ∧ (v.scanStatus = .clean ∨
      ∃ r, .scanPending r ∈ rs ∧ ∃ result ∈ r.verdict v, result.clean = true)) ∧
    ∀ rs, (∀ v ∈ t, v.scanStatus = .pending ∨ v.scanStatus = .clean) →
      (∀ r ∈ rs, ∀ v ∈ t, Temporary stored v r) →
      (Recovers sha256 stored (runs sha256 t rs) ↔ ∀ read, .reconcile read ∈ rs →
        ∀ v ∈ t, read v.objectKey ≠ none) := by
  constructor
  · intro rs v' hv' hclean
    obtain ⟨v, hv, hchain⟩ := ((runs_grows sha256 rs t).mem hv').resolve_right id
    exact ⟨v, hv, hchain.alike.id.symm, hchain.clean hclean⟩
  · intro rs hfresh htemporary
    have hg := runs_grows sha256 rs t
    have hmatching' : ∀ v ∈ runs sha256 t rs, Matching sha256 stored v := by
      intro v' hv'
      obtain ⟨v, hv, hchain⟩ := (hg.mem hv').resolve_right id
      exact (hmatching v hv).alike hchain.alike
    constructor
    · intro hrecovers read hmem v hv hread
      obtain ⟨v', hv', hchain⟩ := hg.kept hv
      exact not_recovers_of_stuck hmatching' hv' (hchain.stuck_of_unread hmem hread) hrecovers
    · intro hread last more hlast hmore hscans
      refine Recovering.run ⟨fun v' hv' => ?_, hmatching'⟩ hmore ((unfinished_le_length _).trans hscans)
      obtain ⟨v, hv, hchain⟩ := (hg.mem hv').resolve_right id
      have hsane := hchain.sane (hmatching v hv) (fun r hr => htemporary r hr v hv)
        (fun read hmem => hread read hmem v hv) ((hfresh v hv).symm.imp_right .inl)
      rcases hsane with hc | hp | ⟨hs, hd, hsome⟩
      · exact .inl hc
      · exact .inr (.inl hp)
      · obtain ⟨s, hs'⟩ := Option.isSome_iff_exists.1 hsome
        exact .inr (.inr ⟨hs, hd, s, hs', hlast v' hv' s hs'⟩)

/-! ### One outage -/

namespace Outage

def contents : Bytes := [104, 105]

/-- A stand-in for the digest, right on the one object that is stored. -/
def sha256 (bytes : Bytes) : String :=
  if bytes = contents then "8f434346648f6b96df89dda901c5176b10a6d83961dd3c1ac88b59b2dc327aa4" else ""

def stored (key : String) : Option Bytes := if key = "quarantine/1/2" then some contents else none

def uploaded : DocumentVersion :=
  { id := 2, documentId := 1, versionNumber := 1, objectKey := "quarantine/1/2", contentType := "text/plain"
    checksumSha256 := "8f434346648f6b96df89dda901c5176b10a6d83961dd3c1ac88b59b2dc327aa4"
    scanStatus := .pending, scanDetail := none, scannedAt := none, createdAt := 0 }

def versions : Versions := ⟨[uploaded], by decide⟩

theorem versions_matching : ∀ v ∈ versions, Matching sha256 stored v := by
  intro v hv
  rw [List.mem_singleton.1 hv]
  exact ⟨contents, by decide, by decide⟩

/-- The storage does not answer a scan, and a minute later everything works. -/
theorem scans_recover_scan : Recovers sha256 stored
    (runs sha256 versions [.scanPending
      { now := 0, read := fun _ => none, scan := fun _ _ => none, markedAt := fun _ => 1 }]) := by
  refine ((scans_recover versions versions_matching).2 _ (fun v hv => .inl ?_) (fun r hr v _ => ?_)).2
    (fun read hmem => ?_)
  · rw [List.mem_singleton.1 hv]
    rfl
  · rw [List.mem_singleton.1 hr]
    exact fun result hresult => by cases hresult
  · cases List.mem_singleton.1 hmem

/-- The storage does not answer a reconciliation: the version is never scanned. -/
theorem reconciliation_quarantines :
    (∀ v ∈ versions, Matching sha256 stored v) ∧ (∀ v ∈ versions, v.scanStatus = .pending) ∧
    (∀ v ∈ versions, Temporary stored v (.reconcile fun _ => none)) ∧
    ¬ Recovers sha256 stored (runs sha256 versions [.reconcile fun _ => none]) := by
  refine ⟨versions_matching, fun v hv => ?_, fun _ _ => .inl rfl, ?_⟩
  · rw [List.mem_singleton.1 hv]
    rfl
  · obtain ⟨v', hv', hchain⟩ := (runs_grows sha256 [.reconcile fun _ => none] versions).kept
      (show uploaded ∈ versions from List.mem_singleton.2 rfl)
    refine not_recovers_of_stuck (fun w hw => ?_) hv' (hchain.stuck_of_unread List.mem_cons_self rfl)
    obtain ⟨v, hv, hc⟩ := ((runs_grows sha256 [.reconcile fun _ => none] versions).mem hw).resolve_right id
    exact (versions_matching v hv).alike hc.alike

end Outage

end GManager.Documents
