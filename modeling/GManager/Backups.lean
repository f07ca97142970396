import GManager.Rows
import GManager.Table

/-!
# The write barrier of a backup

`BackupQuiescence`: writers enter and leave, and a backup takes a lease and waits until nobody writes. The
monitor is given up only where `begin` waits, so everything else is one act; threads interleave between the
acts, the clock may jump, a wait may be interrupted and the server may restart. A lease that still verifies
is one under which nobody has written since it was granted (`backup_quiet`).
-/

namespace GManager.Backups

/-- Why the barrier refuses a call. -/
inductive Refusal
  | backupInProgress | anotherBackup | notDrained | leaseGone
  deriving DecidableEq, Repr

def Refusal.message : Refusal → String
  | .backupInProgress => "Backup in progress; retry the same request and idempotency key"
  | .anotherBackup => "Another backup is in progress"
  | .notDrained => "Writes did not drain; backup was not started"
  | .leaseGone => "Backup lease expired or server restarted; discard this backup set"

/-- A thread inside a write section, and how deep: the thread-local `depth`. -/
structure Permit where
  thread : ℕ
  depth : ℕ
  deriving DecidableEq, Repr

structure BackupQuiescence where
  lease : Option UUID
  expiresAt : Option Instant
  writers : ℤ
  depth : Table Permit.thread

structure Lease where
  id : UUID
  expiresAt : Option Instant
  deriving DecidableEq, Repr

namespace BackupQuiescence

variable (q : BackupQuiescence)

def new : BackupQuiescence := ⟨none, none, 0, .empty⟩

def release : BackupQuiescence := { q with lease := none, expiresAt := none }

def expire (now : Instant) : BackupQuiescence := if ∃ t ∈ q.expiresAt, t ≤ now then q.release else q

def depthOf (thread : ℕ) : ℕ := ((q.depth.find? thread).map (·.depth)).getD 0

def enter (thread : ℕ) (now : Instant) : BackupQuiescence × Except Refusal Unit :=
  let q := q.expire now
  if q.lease.isSome ∧ q.depthOf thread = 0 then (q, .error .backupInProgress)
  else ({ q with
    writers := if q.depthOf thread = 0 then q.writers + 1 else q.writers
    depth := q.depth.upsert ⟨thread, q.depthOf thread + 1⟩ }, .ok ())

/-- The permit of `enter` is closed by its thread. -/
def close (thread : ℕ) : BackupQuiescence :=
  let remaining := q.depthOf thread - 1
  if remaining = 0 then
    { q with depth := q.depth.delete fun p => p.thread = thread, writers := q.writers - 1 }
  else { q with depth := q.depth.upsert ⟨thread, remaining⟩ }

def verify (id : UUID) (now : Instant) : BackupQuiescence × Except Refusal Lease :=
  let q := q.expire now
  if q.lease = some id then (q, .ok ⟨id, q.expiresAt⟩) else (q, .error .leaseGone)

/-- `end`. -/
def finish (id : UUID) (now : Instant) : BackupQuiescence × Except Refusal Unit :=
  match q.verify id now with
  | (q, .ok _) => (q.release, .ok ())
  | (q, .error e) => (q, .error e)

end BackupQuiescence

/-- What a caller is told, or that it waits on. -/
inductive Reply
  | done | leased (l : Lease) | verified (l : Lease) | refused (r : Refusal) | waits | interrupted
  deriving DecidableEq, Repr

/-- The loop of `begin` up to its next wait; `nano` is read from the monotonic clock. -/
def drain (q : BackupQuiescence) (id : UUID) (deadline nano : ℤ) : BackupQuiescence × Reply :=
  if 0 < q.writers then
    if deadline ≤ nano then (q.release, .refused .notDrained) else (q, .waits)
  else (q, .leased ⟨id, q.expiresAt⟩)

/-- A call of `begin` that waits. -/
structure Waiter where
  id : UUID
  deadline : ℤ
  deriving DecidableEq, Repr

/-- The server: the barrier, the calls that wait in it, and every identifier that was ever drawn. -/
structure Server where
  barrier : BackupQuiescence
  waiting : List Waiter
  drawn : List UUID

/-- `begin` reads each clock twice: for `expire` and for the end of the lease, and for the
deadline and in its loop. -/
inductive Event
  | enter (thread : ℕ) (now : Instant)
  | close (thread : ℕ)
  | begin (id : UUID) (now now' : Instant) (nano nano' : ℤ)
  | wake (id : UUID) (nano : ℤ)
  | interrupt (id : UUID)
  | verify (id : UUID) (now : Instant)
  | finish (id : UUID) (now : Instant)
  | restart
  deriving DecidableEq, Repr

def outcome : Except Refusal Unit → Reply
  | .ok () => .done
  | .error r => .refused r

def verdict : Except Refusal Lease → Reply
  | .ok l => .verified l
  | .error r => .refused r

namespace Server

variable (s : Server)

def new : Server := ⟨.new, [], []⟩

/-- A pass of the loop of `begin`: its call goes on waiting, or ends. -/
def pass (s : Server) (w : Waiter) (nano : ℤ) : Server × Reply :=
  let (q, reply) := drain s.barrier w.id w.deadline nano
  ({ s with barrier := q, waiting := if reply = .waits then w :: s.waiting else s.waiting }, reply)

/-- One act; a permit is closed by a thread that has one, and an identifier is drawn once. -/
def step : Event → Option (Server × Reply)
  | .enter thread now =>
    let (q, r) := s.barrier.enter thread now
    some ({ s with barrier := q }, outcome r)
  | .close thread =>
    if s.barrier.depthOf thread = 0 then none else some ({ s with barrier := s.barrier.close thread }, .done)
  | .begin id now now' nano nano' =>
    let q := s.barrier.expire now
    if id ∈ s.drawn then none
    else if q.lease.isSome then some ({ s with barrier := q }, .refused .anotherBackup)
    else some (pass { s with
      barrier := { q with lease := some id, expiresAt := some (now'.plusSeconds 600) }
      drawn := id :: s.drawn } ⟨id, nano + 30000000000⟩ nano')
  | .wake id nano =>
    (s.waiting.find? fun w => w.id = id).map fun w => pass { s with waiting := s.waiting.erase w } w nano
  | .interrupt id =>
    (s.waiting.find? fun w => w.id = id).map fun w =>
      ({ s with barrier := s.barrier.release, waiting := s.waiting.erase w }, .interrupted)
  | .verify id now =>
    let (q, r) := s.barrier.verify id now
    some ({ s with barrier := q }, verdict r)
  | .finish id now =>
    let (q, r) := s.barrier.finish id now
    some ({ s with barrier := q }, outcome r)
  | .restart => some ({ s with barrier := .new, waiting := [] }, .done)

def run (s : Server) (es : List Event) : Option Server := es.foldlM (fun s e => (s.step e).map Prod.fst) s

/-! ### What one act does -/

end Server

variable {q : BackupQuiescence} {s s' : Server} {id id' : UUID} {thread : ℕ} {now : Instant}
  {e : Event} {reply : Reply}

/-- The count of the writers is that of the threads with permits. -/
structure BackupQuiescence.Counted (q : BackupQuiescence) : Prop where
  writers : q.writers = q.depth.rows.length
  inside : ∀ p ∈ q.depth, 0 < p.depth

namespace BackupQuiescence

theorem expire_depth : (q.expire now).depth = q.depth ∧ (q.expire now).writers = q.writers := by
  unfold expire release
  split <;> exact ⟨rfl, rfl⟩

theorem lease_of_expire (h : (q.expire now).lease = some id) : q.lease = some id := by
  unfold expire release at h
  split at h
  · cases h
  · exact h

theorem Counted.of_eq {q' : BackupQuiescence} (h : q.Counted) (hd : q'.depth = q.depth)
    (hw : q'.writers = q.writers) : q'.Counted :=
  ⟨by rw [hw, hd, h.writers], fun p hp => h.inside p (hd ▸ hp)⟩

theorem Counted.expire (h : q.Counted) : (q.expire now).Counted := h.of_eq expire_depth.1 expire_depth.2

/-- A thread is at depth zero just when it has no permit. -/
theorem Counted.depthOf_eq_zero (h : q.Counted) : q.depthOf thread = 0 ↔ q.depth.find? thread = none := by
  unfold depthOf
  cases hp : q.depth.find? thread with
  | none => simp
  | some p =>
    have hpos := h.inside p (Table.find?_eq_some.1 hp).1
    simp only [Option.map_some, Option.getD_some, reduceCtorEq, iff_false]
    omega

theorem Counted.quiet (h : q.Counted) (hw : q.writers ≤ 0) : q.depth.rows = [] := by
  have hc := h.writers
  exact List.length_eq_zero_iff.1 (by omega)

theorem depthOf_of_nil (h : q.depth.rows = []) : q.depthOf thread = 0 := by
  have hnone : q.depth.find? thread = none := Table.find?_eq_none.2 fun p hp => by
    rw [← Table.mem_rows, h] at hp
    cases hp
  rw [depthOf, hnone]
  rfl

theorem Counted.upsert (h : q.Counted) (thread : ℕ) {d : ℕ} (hd : 0 < d) :
    ({ q with
      writers := if q.depthOf thread = 0 then q.writers + 1 else q.writers
      depth := q.depth.upsert ⟨thread, d⟩ } : BackupQuiescence).Counted := by
  have hw := h.writers
  refine ⟨?_, fun p hp => ?_⟩
  · rcases Table.upsert_cases q.depth ⟨thread, d⟩ with hi | ⟨⟨p, hp, hk⟩, hs⟩
    · obtain ⟨hfresh, hrows⟩ := Table.insert_eq_some.1 hi
      have hzero : q.depthOf thread = 0 := h.depthOf_eq_zero.2 (Table.find?_eq_none.2 hfresh)
      simp only [hzero, if_true, hrows, List.length_append, List.length_singleton]
      omega
    · have hpos : q.depthOf thread ≠ 0 := fun hz =>
        Table.find?_eq_none.1 (h.depthOf_eq_zero.1 hz) p hp hk
      have hlength : (q.depth.save ⟨thread, d⟩).rows.length = q.depth.rows.length := List.length_map _
      simp only [hpos, if_false, hs, hlength]
      exact hw
  · rcases Table.mem_upsert.1 hp with rfl | ⟨-, hp⟩
    · exact hd
    · exact h.inside p hp

theorem Counted.enter (h : q.Counted) : (q.enter thread now).1.Counted := by
  have hx : (q.expire now).Counted := h.expire
  unfold BackupQuiescence.enter
  dsimp only
  split
  · exact hx
  · exact hx.upsert thread (Nat.succ_pos _)

theorem length_delete {p : Permit} (hp : p ∈ q.depth) :
    (q.depth.delete fun x => x.thread = p.thread).rows.length + 1 = q.depth.rows.length := by
  have hnodup : q.depth.rows.Nodup := q.depth.nodup.of_map _
  have herase : (q.depth.delete fun x => x.thread = p.thread).rows = q.depth.rows.erase p := by
    rw [hnodup.erase_eq_filter]
    refine List.filter_congr fun x hx => ?_
    by_cases hxp : x = p
    · simp [hxp]
    · have hkey : x.thread ≠ p.thread := fun hk => hxp (Table.eq_of_key hx hp hk)
      simp [hxp, hkey]
  rw [herase, List.length_erase_of_mem hp]
  have hpos : 0 < q.depth.rows.length := List.length_pos_of_mem hp
  omega

theorem Counted.close (h : q.Counted) (hd : q.depthOf thread ≠ 0) : (q.close thread).Counted := by
  have hw := h.writers
  unfold BackupQuiescence.close
  dsimp only
  split
  · cases hp : q.depth.find? thread with
    | none => exact absurd (h.depthOf_eq_zero.2 hp) hd
    | some p =>
      obtain ⟨hmem, rfl⟩ := Table.find?_eq_some.1 hp
      have hlength := length_delete hmem
      refine ⟨?_, fun x hx => h.inside x (Table.mem_delete.1 hx).1⟩
      dsimp only
      omega
  · rename_i hremaining
    have hu := h.upsert thread (Nat.pos_of_ne_zero hremaining)
    rwa [if_neg hd] at hu

theorem verify_barrier : (q.verify id now).1 = q.expire now := by
  unfold verify
  dsimp only
  split <;> rfl

theorem finish_barrier (q : BackupQuiescence) (id : UUID) (now : Instant) :
    (q.finish id now).1 = q.expire now ∨ (q.finish id now).1 = (q.expire now).release := by
  have hq : (q.verify id now).1 = q.expire now := verify_barrier
  unfold finish
  rcases hv : q.verify id now with ⟨q', r⟩
  rw [hv] at hq
  cases r with
  | ok l => exact .inr (congrArg release hq)
  | error r => exact .inl hq

end BackupQuiescence

namespace BackupQuiescence

theorem lease_of_enter (h : (q.enter thread now).1.lease = some id) : q.lease = some id := by
  unfold enter at h
  dsimp only at h
  split at h <;> exact lease_of_expire h

theorem lease_of_close (h : (q.close thread).lease = some id) : q.lease = some id := by
  unfold close at h
  dsimp only at h
  split at h <;> exact h

theorem lease_of_verify (h : (q.verify id' now).1.lease = some id) : q.lease = some id := by
  rw [verify_barrier] at h
  exact lease_of_expire h

theorem lease_of_finish (h : (q.finish id' now).1.lease = some id) : q.lease = some id := by
  rcases finish_barrier q id' now with hb | hb
  · exact lease_of_expire (hb ▸ h)
  · rw [hb] at h
    cases h

/-- Where a lease stands and nobody is inside, nobody gets in. -/
theorem depth_of_enter (hrows : q.depth.rows = []) (h : (q.enter thread now).1.lease = some id) :
    (q.enter thread now).1.depth.rows = [] := by
  have hx : (q.expire now).depth.rows = [] := by
    rw [expire_depth.1]
    exact hrows
  have hlease : (q.expire now).lease = some id := by
    unfold enter at h
    dsimp only at h
    split at h <;> exact h
  unfold enter
  dsimp only
  rw [if_pos ⟨Option.isSome_of_eq_some hlease, depthOf_of_nil hx⟩]
  exact hx

end BackupQuiescence

theorem drain_cases (q : BackupQuiescence) (id : UUID) (deadline nano : ℤ) :
    (drain q id deadline nano = (q.release, .refused .notDrained)) ∨ drain q id deadline nano = (q, .waits) ∨
      q.writers ≤ 0 ∧ drain q id deadline nano = (q, .leased ⟨id, q.expiresAt⟩) := by
  unfold drain
  split
  · split
    · exact .inl rfl
    · exact .inr (.inl rfl)
  · exact .inr (.inr ⟨not_lt.1 ‹_›, rfl⟩)

/-! ### Runs -/

/-- A lease that was drawn is held by nobody but its call, and a call that waits has drawn its own. -/
structure Server.Sound (s : Server) : Prop where
  counted : s.barrier.Counted
  drawn : ∀ id, s.barrier.lease = some id → id ∈ s.drawn
  waiting : ∀ w ∈ s.waiting, w.id ∈ s.drawn
  distinct : (s.waiting.map (·.id)).Nodup

/-- The lease `id` was granted: while it stands, nobody is inside a write section. -/
structure Server.Granted (s : Server) (id : UUID) : Prop where
  drawn : id ∈ s.drawn
  ended : ∀ w ∈ s.waiting, w.id ≠ id
  quiet : s.barrier.lease = some id → s.barrier.depth.rows = []

namespace Server

theorem Sound.new : Server.new.Sound where
  counted := ⟨rfl, fun p hp => absurd hp Table.not_mem_empty⟩
  drawn _ h := by cases h
  waiting _ hw := by cases hw
  distinct := List.nodup_nil

/-- What a pass of the loop leaves behind. -/
theorem pass_spec {w : Waiter} {nano : ℤ} (h : pass s w nano = (s', reply)) :
    s'.drawn = s.drawn ∧ (s'.barrier = s.barrier ∨ s'.barrier = s.barrier.release) ∧
      (s'.waiting = s.waiting ∨ s'.waiting = w :: s.waiting) ∧
      ∀ l, reply = .leased l → l.id = w.id ∧ s.barrier.writers ≤ 0 ∧ s'.barrier = s.barrier ∧
      s'.waiting = s.waiting := by
  unfold pass at h
  rcases drain_cases s.barrier w.id w.deadline nano with hd | hd | ⟨hw, hd⟩
  · rw [hd] at h
    cases h
    exact ⟨rfl, .inr rfl, .inl rfl, fun l hl => by cases hl⟩
  · rw [hd] at h
    cases h
    exact ⟨rfl, .inl rfl, .inr rfl, fun l hl => by cases hl⟩
  · rw [hd] at h
    cases h
    refine ⟨rfl, .inl rfl, .inl rfl, fun l hl => ?_⟩
    cases hl
    exact ⟨rfl, hw, rfl, rfl⟩

theorem Sound.of_pass {w : Waiter} {nano : ℤ} (hp : pass s w nano = (s', reply)) (h : s.Sound)
    (hw : w.id ∈ s.drawn) (hnew : ∀ x ∈ s.waiting, x.id ≠ w.id) : s'.Sound := by
  obtain ⟨hdrawn, hbarrier, hwaiting, -⟩ := pass_spec hp
  refine ⟨?_, fun id hid => ?_, fun x hx => ?_, ?_⟩
  · rcases hbarrier with hb | hb
    · exact hb ▸ h.counted
    · exact hb ▸ h.counted.of_eq rfl rfl
  · rw [hdrawn]
    rcases hbarrier with hb | hb
    · exact h.drawn id (hb ▸ hid)
    · rw [hb] at hid
      cases hid
  · rw [hdrawn]
    rcases hwaiting with he | he
    · exact h.waiting x (he ▸ hx)
    · rcases List.mem_cons.1 (he ▸ hx) with rfl | hx
      · exact hw
      · exact h.waiting x hx
  · rcases hwaiting with he | he
    · exact he ▸ h.distinct
    · rw [he, List.map_cons, List.nodup_cons]
      refine ⟨fun hm => ?_, h.distinct⟩
      obtain ⟨x, hx, hk⟩ := List.mem_map.1 hm
      exact hnew x hx hk

theorem find_waiting {w : Waiter} (h : (s.waiting.find? fun w => w.id = id) = some w) :
    w ∈ s.waiting ∧ w.id = id :=
  ⟨List.mem_of_find?_eq_some h, by simpa using List.find?_some h⟩

theorem Sound.waiting_erase {w x : Waiter} (h : s.Sound) (hw : w ∈ s.waiting) (hx : x ∈ s.waiting.erase w) :
    x.id ≠ w.id := by
  have hnodup : s.waiting.Nodup := h.distinct.of_map _
  obtain ⟨hne, hx⟩ := hnodup.mem_erase_iff.1 hx
  exact fun hid => hne (List.inj_on_of_nodup_map h.distinct hx hw hid)

theorem Sound.erase {w : Waiter} (h : s.Sound) : ({ s with waiting := s.waiting.erase w } : Server).Sound :=
  ⟨h.counted, h.drawn, fun x hx => h.waiting x (List.mem_of_mem_erase hx),
    h.distinct.sublist (List.erase_sublist.map _)⟩

theorem Sound.barrier {q : BackupQuiescence} (h : s.Sound) (hq : q.Counted)
    (hl : ∀ id, q.lease = some id → s.barrier.lease = some id) : ({ s with barrier := q } : Server).Sound :=
  ⟨hq, fun id hid => h.drawn id (hl id hid), h.waiting, h.distinct⟩

theorem Sound.fresh (h : s.Sound) (hid : id ∉ s.drawn) {w : Waiter} (hw : w ∈ s.waiting) : w.id ≠ id := by
  rintro rfl
  exact hid (h.waiting w hw)

/-- The state in which a call of `begin` starts to wait. -/
theorem Sound.begin (h : s.Sound) {stop : Option Instant} :
    ({ s with
      barrier := { s.barrier.expire now with lease := some id, expiresAt := stop }
      drawn := id :: s.drawn } : Server).Sound :=
  ⟨h.counted.expire.of_eq rfl rfl, fun _ hx => Option.some.inj hx ▸ List.mem_cons_self,
    fun w hw => List.mem_cons_of_mem _ (h.waiting w hw), h.distinct⟩

theorem Sound.step (h : s.Sound) (hs : s.step e = some (s', reply)) : s'.Sound := by
  cases e with
  | enter thread now =>
    cases hs
    exact h.barrier h.counted.enter fun id => BackupQuiescence.lease_of_enter
  | close thread =>
    simp only [Server.step] at hs
    split at hs
    · cases hs
    · cases hs
      exact h.barrier (h.counted.close ‹_›) fun id => BackupQuiescence.lease_of_close
  | begin id now now' nano nano' =>
    simp only [Server.step] at hs
    split at hs
    · cases hs
    · rename_i hfresh
      split at hs
      · cases hs
        exact h.barrier h.counted.expire fun id => BackupQuiescence.lease_of_expire
      · have hp := Option.some.inj hs
        exact Sound.of_pass hp h.begin List.mem_cons_self fun _ hx => h.fresh hfresh hx
  | wake id nano =>
    obtain ⟨w, hw, hp⟩ := Option.map_eq_some_iff.1 hs
    obtain ⟨hmem, -⟩ := find_waiting hw
    exact Sound.of_pass hp h.erase (h.waiting w hmem) fun _ hx => h.waiting_erase hmem hx
  | interrupt id =>
    obtain ⟨w, hw, hp⟩ := Option.map_eq_some_iff.1 hs
    cases hp
    exact h.erase.barrier (h.counted.of_eq rfl rfl) fun id hid => by cases hid
  | verify id now =>
    cases hs
    have hb : (s.barrier.verify id now).1 = s.barrier.expire now := BackupQuiescence.verify_barrier
    have hcounted : (s.barrier.verify id now).1.Counted := by
      rw [hb]
      exact h.counted.expire
    refine h.barrier hcounted fun x hx => BackupQuiescence.lease_of_verify hx
  | finish id now =>
    cases hs
    refine h.barrier ?_ fun x hx => BackupQuiescence.lease_of_finish hx
    rcases s.barrier.finish_barrier id now with hb | hb
    · exact hb ▸ h.counted.expire
    · exact hb ▸ h.counted.expire.of_eq rfl rfl
  | restart =>
    cases hs
    refine ⟨Sound.new.counted, fun x hx => ?_, fun w hw => ?_, List.nodup_nil⟩
    · cases hx
    · cases hw

/-- A grant: nobody is inside, and the call is over. -/
theorem Granted.of_step (h : s.Sound) {l : Lease} (hs : s.step e = some (s', .leased l)) :
    s'.Granted l.id := by
  have hdone : ∀ {t : Server} {w : Waiter} {nano : ℤ}, pass t w nano = (s', .leased l) → t.barrier.Counted →
      w.id ∈ t.drawn → (∀ x ∈ t.waiting, x.id ≠ w.id) → s'.Granted l.id := by
    intro t w nano hp hcounted hw hnew
    obtain ⟨hdrawn, -, -, hleased⟩ := pass_spec hp
    obtain ⟨hid, hwriters, hbarrier, hwaiting⟩ := hleased l rfl
    rw [hid]
    exact ⟨hdrawn ▸ hw, hwaiting ▸ hnew, fun _ => hbarrier ▸ hcounted.quiet hwriters⟩
  cases e with
  | begin id now now' nano nano' =>
    simp only [Server.step] at hs
    split at hs
    · cases hs
    · rename_i hfresh
      split at hs
      · cases hs
      · have hp := Option.some.inj hs
        exact hdone hp h.begin.counted List.mem_cons_self fun _ hx => h.fresh hfresh hx
  | wake id nano =>
    obtain ⟨w, hw, hp⟩ := Option.map_eq_some_iff.1 hs
    obtain ⟨hmem, -⟩ := find_waiting hw
    exact hdone hp h.counted (h.waiting w hmem) fun _ hx => h.waiting_erase hmem hx
  | enter thread now =>
    simp only [Server.step, outcome] at hs
    split at hs <;> cases hs
  | close thread =>
    simp only [Server.step] at hs
    split at hs <;> cases hs
  | interrupt id =>
    obtain ⟨w, -, hp⟩ := Option.map_eq_some_iff.1 hs
    cases hp
  | verify id now =>
    simp only [Server.step, verdict] at hs
    split at hs <;> cases hs
  | finish id now =>
    simp only [Server.step, outcome] at hs
    split at hs <;> cases hs
  | restart => cases hs

/-- A drawn lease is not taken anew. -/
theorem lease_of_step (hid : id ∈ s.drawn) (hs : s.step e = some (s', reply))
    (hl : s'.barrier.lease = some id) : s.barrier.lease = some id := by
  have hpass : ∀ {t : Server} {w : Waiter} {nano : ℤ}, pass t w nano = (s', reply) →
      t.barrier.lease = some id := by
    intro t w nano hp
    rcases (pass_spec hp).2.1 with hb | hb
    · exact hb ▸ hl
    · rw [hb] at hl
      cases hl
  cases e with
  | enter thread now =>
    cases hs
    exact BackupQuiescence.lease_of_enter hl
  | close thread =>
    simp only [Server.step] at hs
    split at hs
    · cases hs
    · cases hs
      exact BackupQuiescence.lease_of_close hl
  | begin x now now' nano nano' =>
    simp only [Server.step] at hs
    split at hs
    · cases hs
    · rename_i hfresh
      split at hs
      · cases hs
        exact BackupQuiescence.lease_of_expire hl
      · have hx := hpass (Option.some.inj hs)
        cases hx
        exact absurd hid hfresh
  | wake x nano =>
    obtain ⟨w, -, hp⟩ := Option.map_eq_some_iff.1 hs
    have hx := hpass hp
    exact hx
  | interrupt x =>
    obtain ⟨w, -, hp⟩ := Option.map_eq_some_iff.1 hs
    cases hp
    cases hl
  | verify x now =>
    cases hs
    exact BackupQuiescence.lease_of_verify hl
  | finish x now =>
    cases hs
    exact BackupQuiescence.lease_of_finish hl
  | restart =>
    cases hs
    cases hl

/-- While a granted lease stands nobody gets inside. -/
theorem Granted.step (h : s.Granted id) (hs : s.step e = some (s', reply)) : s'.Granted id := by
  have hback : s'.barrier.lease = some id → s.barrier.depth.rows = [] :=
    fun hl => h.quiet (lease_of_step h.drawn hs hl)
  have hpass : ∀ {t : Server} {w : Waiter} {nano : ℤ}, pass t w nano = (s', reply) → id ∈ t.drawn →
      (∀ x ∈ t.waiting, x.id ≠ id) → w.id ≠ id → t.barrier.depth = s.barrier.depth → s'.Granted id := by
    intro t w nano hp hdrawn hover hw hdepth
    obtain ⟨hd, hbarrier, hwaiting, -⟩ := pass_spec hp
    refine ⟨hd ▸ hdrawn, fun x hx => ?_, fun hl => ?_⟩
    · rcases hwaiting with he | he
      · exact hover x (he ▸ hx)
      · rcases List.mem_cons.1 (he ▸ hx) with rfl | hx
        · exact hw
        · exact hover x hx
    · have hrows : t.barrier.depth.rows = [] := by
        rw [hdepth]
        exact hback hl
      rcases hbarrier with hb | hb
      · exact hb ▸ hrows
      · rw [hb]
        exact hrows
  cases e with
  | enter thread now =>
    cases hs
    exact ⟨h.drawn, h.ended, fun hl => BackupQuiescence.depth_of_enter (hback hl) hl⟩
  | close thread =>
    simp only [Server.step] at hs
    split at hs
    · cases hs
    · rename_i hd
      cases hs
      exact ⟨h.drawn, h.ended, fun hl => absurd (BackupQuiescence.depthOf_of_nil (hback hl)) hd⟩
  | begin x now now' nano nano' =>
    simp only [Server.step] at hs
    split at hs
    · cases hs
    · rename_i hfresh
      split at hs
      · cases hs
        refine ⟨h.drawn, h.ended, fun hl => ?_⟩
        rw [BackupQuiescence.expire_depth.1]
        exact hback hl
      · refine hpass (Option.some.inj hs) (List.mem_cons_of_mem _ h.drawn) h.ended ?_
          BackupQuiescence.expire_depth.1
        rintro rfl
        exact hfresh h.drawn
  | wake x nano =>
    obtain ⟨w, hw, hp⟩ := Option.map_eq_some_iff.1 hs
    exact hpass hp h.drawn (fun y hy => h.ended y (List.mem_of_mem_erase hy))
      (h.ended w (find_waiting hw).1) rfl
  | interrupt x =>
    obtain ⟨w, -, hp⟩ := Option.map_eq_some_iff.1 hs
    cases hp
    exact ⟨h.drawn, fun y hy => h.ended y (List.mem_of_mem_erase hy), fun hl => by cases hl⟩
  | verify x now =>
    cases hs
    have hb : (s.barrier.verify x now).1 = s.barrier.expire now := BackupQuiescence.verify_barrier
    refine ⟨h.drawn, h.ended, fun hl => ?_⟩
    show (s.barrier.verify x now).1.depth.rows = []
    rw [hb, BackupQuiescence.expire_depth.1]
    exact hback hl
  | finish x now =>
    cases hs
    refine ⟨h.drawn, h.ended, fun hl => ?_⟩
    show (s.barrier.finish x now).1.depth.rows = []
    rcases s.barrier.finish_barrier x now with hb | hb
    · rw [hb, BackupQuiescence.expire_depth.1]
      exact hback hl
    · have hl' : (s.barrier.finish x now).1.lease = some id := hl
      rw [hb] at hl'
      cases hl'
  | restart =>
    cases hs
    exact ⟨h.drawn, fun y hy => (by cases hy), fun hl => by cases hl⟩

/-- A run keeps what each act keeps. -/
theorem run_keeps {P : Server → Prop}
    (hstep : ∀ {s s' : Server} {e reply}, P s → s.step e = some (s', reply) → P s') {es : List Event}
    (h : P s) (hrun : run s es = some s') : P s' := by
  induction es generalizing s with
  | nil =>
    cases hrun
    exact h
  | cons e es ih =>
    rw [run, List.foldlM_cons] at hrun
    obtain ⟨s₁, hs, hrun⟩ := Option.bind_eq_some_iff.1 hrun
    obtain ⟨⟨t, reply⟩, hact, rfl⟩ := Option.map_eq_some_iff.1 hs
    exact ih (hstep h hact) hrun

theorem Granted.lease_of_run {es : List Event} (h : s.Granted id) (hrun : run s es = some s')
    (hl : s'.barrier.lease = some id) : s.barrier.lease = some id := by
  induction es generalizing s with
  | nil =>
    cases hrun
    exact hl
  | cons e es ih =>
    rw [run, List.foldlM_cons] at hrun
    obtain ⟨s₁, hs, hrun⟩ := Option.bind_eq_some_iff.1 hrun
    obtain ⟨⟨t, reply⟩, hact, rfl⟩ := Option.map_eq_some_iff.1 hs
    have hnext := h.step hact
    exact lease_of_step h.drawn hact (ih hnext hrun)

/-- From the grant of a lease to any instant at which it verifies, nobody is inside a write section. -/
theorem backup_quiet {before between after : List Event} {s₀ s₁ s₂ s₃ : Server} {l : Lease}
    (hbefore : run .new before = some s₀) (hgrant : s₀.step e = some (s₁, .leased l))
    (hbetween : run s₁ between = some s₂) (hafter : run s₂ after = some s₃)
    (hverify : (s₃.barrier.verify l.id now).2.isOk = true) :
    s₂.barrier.writers = 0 ∧ ∀ thread, s₂.barrier.depthOf thread = 0 := by
  have hsound : s₀.Sound := run_keeps Sound.step Sound.new hbefore
  have hgranted : s₂.Granted l.id := run_keeps Granted.step (Granted.of_step hsound hgrant) hbetween
  have hcounted : s₂.barrier.Counted := (run_keeps Sound.step (hsound.step hgrant) hbetween).counted
  have hlease : s₃.barrier.lease = some l.id := by
    unfold BackupQuiescence.verify at hverify
    dsimp only at hverify
    split at hverify
    · exact BackupQuiescence.lease_of_expire ‹_›
    · cases hverify
  have hrows := hgranted.quiet (hgranted.lease_of_run hafter hlease)
  refine ⟨?_, fun thread => BackupQuiescence.depthOf_of_nil hrows⟩
  rw [hcounted.writers, hrows]
  rfl

/-- A writer leaves, the backup that waited for it is granted, and another writer is turned away. -/
theorem backup_quiet_after_drain :
    ∃ s, run .new [.enter 1 0, .begin 7 0 1 0 2, .close 1, .wake 7 5, .enter 2 10] = some s ∧
    s.barrier.writers = 0 := by
  have hbefore : ∃ s₀, run .new [.enter 1 0, .begin 7 0 1 0 2, .close 1] = some s₀ := ⟨_, rfl⟩
  obtain ⟨s₀, hbefore⟩ := hbefore
  have hgrant : ∃ s₁, s₀.step (.wake 7 5) = some (s₁, .leased ⟨7, some 600000001⟩) := by
    cases hbefore
    exact ⟨_, rfl⟩
  obtain ⟨s₁, hgrant⟩ := hgrant
  have hbetween : ∃ s₂, run s₁ [.enter 2 10] = some s₂ := ⟨_, rfl⟩
  obtain ⟨s₂, hbetween⟩ := hbetween
  have hverify : (s₂.barrier.verify 7 20).2.isOk = true := by
    cases hbefore
    cases hgrant
    cases hbetween
    rfl
  have hafter : run s₂ [] = some s₂ := rfl
  refine ⟨s₂, ?_, (backup_quiet hbefore hgrant hbetween hafter hverify).1⟩
  cases hbefore
  cases hgrant
  cases hbetween
  rfl

end Server

end GManager.Backups
