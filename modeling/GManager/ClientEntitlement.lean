import GManager.ClientGuard

/-!
# What an active session rests on

An active session needs a verified lease that grants a running time balance, time before its deadlines, and
no local block; `Tick` takes the mode away from any other. A session becomes active in one place, the last
block of a customer's login, and a blocked one only after its block was released. Every statement is about
an event of an arbitrary run: what it can do comes from `Does`, what it finds from `Guarded`.
-/

namespace GManager.Client

variable {env : ClientEnvironment} {offered : MachineCommand → Bool} {k : Job} {s : UUID}

/-- The verified lease grants a time balance that has not run out, and the session shown is not blocked. -/
structure Runtime.Entitled (env : ClientEnvironment) (c : Runtime) : Prop where
  commandGap : c.commandGap = false
  maintenance : c.maintenance = false
  lease : ∃ r granted, c.recovery = some r ∧ r.Verified env ∧ r.lease.Grants granted ∧
    c.trusted < r.lease.graceEndsAt ∧ ∀ e ∈ r.lease.sessionEndsAt, c.trusted < e
  session : ∃ shown, c.Shows shown ∧ c.blocked ≠ some shown

/-- Recovery holds a lease for the session. -/
def Runtime.LeaseFor (s : UUID) (c : Runtime) : Prop := ∃ r, c.recovery = some r ∧ r.lease.sessionId = some s

/-- The session was just entered, with every command up to the cursor of its lease applied. -/
structure Runtime.Entered (env : ClientEnvironment) (s : UUID) (c : Runtime) : Prop where
  shows : c.Shows s
  entitled : c.Entitled env
  current : ∃ r, c.recovery = some r ∧ r.lease.Grants s ∧ r.lease.commandCursor ≤ r.appliedSequence

/-- How the block of a session ends: a start that the lease admits, the block of another session in the single
entry that there is, or a restart from a snapshot without it. -/
inductive Released (env : ClientEnvironment) (s : UUID) (c : ClientConfig) (blocked : Option UUID) :
    ClientEvent → Prop
  | started {e r command started} (hr : c.own.recovery = some r) (hd : Delivered env c.rest command started)
      (ht : command.type = .sessionStarted) (he : command.expired = false)
      (ha : r.admitsStart started command.sequence) : Released env s c blocked e
  | replaced {e other} (hb : blocked = some other) (hne : other ≠ s) : Released env s c blocked e
  | restarted {n} (hb : c.own.snapshots.head?.bind (·.blockedSessionId) ≠ some s) :
      Released env s c blocked (.restart n)

/-! ### Ticks -/

namespace Runtime

variable {c c' : Runtime}

theorem Settles.shows (h : c.Settles c') (hs : c'.Shows s) : c.Shows s := by
  have hview := (h.active hs.active).view
  exact ⟨hview ▸ hs.active, hview ▸ hs.session⟩

theorem Settles.leaseFor (h : c.Settles c') (hl : c.LeaseFor s) : c'.LeaseFor s := by
  obtain ⟨r, hr, hs⟩ := hl
  obtain ⟨r', hr', hlk⟩ := h.exists_mem hr
  exact ⟨r', hr', by rw [hlk.lease]; exact hs⟩

theorem checkDeadline_active (hl : c.locallyLocked = false) (ha : c.checkDeadline.view.mode = .active) :
    c.checkDeadline = c ∧ ∃ r, c.recovery = some r ∧ ¬ r.lease.mustLock c.trusted := by
  unfold checkDeadline at ha ⊢
  cases hr : c.recovery with
  | none =>
    rw [hr] at ha
    exact absurd ha lockLocal_view
  | some r =>
    simp only [hr] at ha ⊢
    have hn : ¬ (c.canUseAssignment r.lease ∧ c.locallyLocked) :=
      fun h => Bool.false_ne_true (hl.symm.trans h.2)
    rw [if_neg hn] at ha ⊢
    by_cases hm : r.lease.mustLock c.trusted
    · rw [if_pos hm] at ha
      exact absurd ha (showAssignment_settles.not_active lockLocal_view)
    · rw [if_neg hm]
      exact ⟨rfl, r, rfl, hm⟩

/-- The part of a tick before the deadline. -/
theorem tick_cases (env : ClientEnvironment) (c : Runtime) :
    (c.tick env).view.mode = .maintenance ∨ ∃ c', c.Settles c' ∧ c.tick env = c'.checkDeadline := by
  unfold tick
  split
  · exact .inl rfl
  · exact .inr ⟨_, readMaintenance_settles.trans
      (requireEnforcement_settles.trans leaveMaintenance_settles), rfl⟩

theorem Open.blocked (h : c.Open) (hs : c.Shows s) : c.blocked ≠ some s := by
  obtain ⟨r, s', hr, hs', hb⟩ := h.shown
  cases hs.session.symm.trans hs'
  rw [Runtime.blocked, hr]
  exact hb

end Runtime

theorem Guarded.blocked_ne {c : Runtime} {x : Exchanges} (h : Guarded env (c, x)) (hs : c.Shows s) :
    c.blocked ≠ some s :=
  (h.active hs.active).blocked hs

/-- A session that is still active after a tick is entitled to it. -/
theorem Guarded.tick {c : Runtime} {x : Exchanges} (h : Guarded env (c, x))
    (ha : (c.tick env).view.mode = .active) : (c.tick env).Entitled env := by
  have ht : Guarded env (c.tick env, x) := closed_guarded _ _ _ h Runtime.tick_settles
  obtain ⟨hl, hm, hg, r, shown, hr, hs, hb⟩ := ht.active ha
  have hdeadline : ¬ r.lease.mustLock (c.tick env).trusted := by
    rcases c.tick_cases env with hmode | ⟨c', hs, he⟩
    · exact absurd (hmode.symm.trans ha) (by decide)
    · rw [he] at ha hl hr ⊢
      have hlocked := (Runtime.checkDeadline_settles.active ha).locallyLocked
      obtain ⟨hsame, r', hr', hd⟩ := Runtime.checkDeadline_active (hlocked.symm.trans hl) ha
      rw [hsame] at hr ⊢
      cases hr.symm.trans hr'
      exact hd
  obtain ⟨granted, hgrants, hgrace, hends⟩ := SessionLease.grants_of_not_mustLock hdeadline
  exact ⟨hg, hm, ⟨r, granted, hr, ht.verified r hr, hgrants, hgrace, hends⟩, shown, ⟨ha, hs⟩, by
    rw [Runtime.blocked, hr]
    exact hb⟩

/-! ### Entering a session -/

theorem Runtime.saveRecovery_view {c : Runtime} : c.saveRecovery.view = c.view := by
  unfold Runtime.saveRecovery
  split <;> rfl

theorem Acts.shows {w w' : Runtime × Exchanges} (h : Acts env w w') (hs : w'.1.Shows s) : w.1.Shows s := by
  cases h with
  | settle h => exact h.shows hs
  | save => exact ⟨Runtime.saveRecovery_view ▸ hs.active, Runtime.saveRecovery_view ▸ hs.session⟩
  | _ => exact ⟨hs.active, hs.session⟩

/-- The block that enters a session finds all that it needs. -/
theorem Runtime.enter_entered {c : Runtime} {x : Exchanges} {r : ClientRecoveryState}
    {result : CustomerSession} (hg : Guarded env (c, x)) (hr : c.recovery = some r)
    (hm : c.mayEnter result r.lease) (ht : ¬ r.lease.mustLock c.unlock.trusted) :
    ((c.unlock.welcome result).saveRecovery).Entered env result.sessionId := by
  obtain ⟨hsession, hgap, hbehind, hblocked, -, -, hmaint⟩ := hm
  have hu : c.unlock.recovery = some r := (c.unlock_recovery).trans hr
  have hw : (c.unlock.welcome result).recovery = some { r with locallyLocked := false } :=
    Runtime.updateRecovery_of_eq hu _
  obtain ⟨granted, hgrants, hgrace, hends⟩ := SessionLease.grants_of_not_mustLock ht
  have hsame : granted = result.sessionId := Option.some.inj (hgrants.session.symm.trans hsession.symm)
  subst hsame
  rw [Runtime.saveRecovery_of_eq hw]
  have hv : r.Verified env := hg.verified r hr
  refine ⟨⟨rfl, rfl⟩, ⟨c.unlock_commandGap.trans hgap, c.unlock_maintenance.trans hmaint,
    ⟨_, result.sessionId, rfl, hv, hgrants, hgrace, hends⟩, result.sessionId, ⟨rfl, rfl⟩, ?_⟩,
    _, rfl, hgrants, ?_⟩
  · exact fun hb => hblocked r hr (hb.trans hsession)
  · exact not_lt.1 fun hlt => hbehind ⟨r, hr, hlt⟩

/-- Only a login makes a session active. -/
theorem Does.entered {w w' : Runtime × Exchanges} (h : Does env k w w') (hg : Guarded env w)
    (hn : ¬ w.1.Shows s) (hs : w'.1.Shows s) : k.IsLogin ∧ w'.1.Entered env s ∧ w.1.blocked ≠ some s := by
  cases h with
  | act h => exact absurd (h.shows hs) hn
  | adopt => exact absurd ⟨hs.active, hs.session⟩ hn
  | @enter c x r result hk hr hc =>
    rcases c.enter_cases result r.lease with he | ⟨hm, ht, he⟩
    · exact absurd (he.shows hs) hn
    · have hent := Runtime.enter_entered hg hr hm ht
      rw [he] at hs
      have hsame : s = result.sessionId := Option.some.inj (hs.session.symm.trans hent.shows.session)
      subst hsame
      refine ⟨hk, by rw [he]; exact hent, fun hb => ?_⟩
      obtain ⟨r', hr', hb⟩ := Option.bind_eq_some_iff.1 hb
      exact hm.2.2.2.1 r' hr' (hb.trans hm.1)

/-! ### The lease of the session shown -/

theorem Runtime.LeaseFor.updateRecovery {c : Runtime} (h : c.LeaseFor s)
    {f : ClientRecoveryState → ClientRecoveryState} (hf : ∀ r, (f r).lease = r.lease) :
    (c.updateRecovery f).LeaseFor s := by
  obtain ⟨r, hr, hs⟩ := h
  exact ⟨f r, Runtime.updateRecovery_of_eq hr f, by rw [hf]; exact hs⟩

theorem Runtime.LeaseFor.saveRecovery {c : Runtime} (h : c.LeaseFor s) : c.saveRecovery.LeaseFor s := by
  obtain ⟨r, hr, hs⟩ := h
  rw [Runtime.saveRecovery_of_eq hr]
  exact ⟨_, rfl, hs⟩

theorem Acts.leaseFor {w w' : Runtime × Exchanges} (h : Acts env w w') (hl : w.1.LeaseFor s) :
    w'.1.LeaseFor s := by
  cases h with
  | settle h => exact h.leaseFor hl
  | carry => exact hl
  | dropAck | lock | advance | dropLock | block => exact hl.updateRecovery fun _ => rfl
  | start => exact hl.updateRecovery fun r => r.acceptStarted_lease _ _
  | save => exact hl.saveRecovery

/-- A verified lease that does not belong to the session takes the place of the one that does. -/
structure LeaseTaken (env : ClientEnvironment) (s : UUID) (w w' : Runtime × Exchanges) : Prop where
  shown : w.1.Shows s ∧ w'.1.Shows s
  before : w.1.LeaseFor s
  after : ∃ r st, w'.1.recovery = some r ∧ env.stationId = some st ∧ r.envelope ∈ w.2.leases ∧
    r.envelope.verify st = .ok r.lease ∧ r.lease.sessionId ≠ some s ∧ r.lease.issuedAt ≤ w.1.trusted

theorem Does.leaseTaken {w w' : Runtime × Exchanges} (h : Does env k w w') (hg : Guarded env w)
    (hb : ¬ (w.1.Shows s ∧ ¬ w.1.LeaseFor s)) (ha : w'.1.Shows s ∧ ¬ w'.1.LeaseFor s) :
    LeaseTaken env s w w' := by
  by_cases hs : w.1.Shows s
  · have hl : w.1.LeaseFor s := by
      by_contra hl
      exact hb ⟨hs, hl⟩
    cases h with
    | act h => exact absurd (h.leaseFor hl) ha.2
    | adopt b hst hv hx _ ht =>
      refine ⟨⟨hs, ha.1⟩, hl, _, _, rfl, hst, hx, hv, fun he => ha.2 ⟨_, rfl, he⟩, ht⟩
    | @enter c x r result _ hr hc =>
      refine absurd ?_ ha.2
      rcases c.enter_cases result r.lease with he | ⟨-, -, he⟩
      · exact he.leaseFor hl
      · rw [he]
        have hu : c.unlock.LeaseFor s := by
          obtain ⟨r, hr, hs⟩ := hl
          exact ⟨r, c.unlock_recovery.trans hr, hs⟩
        have hw : (c.unlock.welcome result).LeaseFor s :=
          hu.updateRecovery (f := fun r => { r with locallyLocked := false }) fun _ => rfl
        exact hw.saveRecovery
  · obtain ⟨-, hent, -⟩ := h.entered hg hs ha.1
    obtain ⟨r, hr, hgrants, -⟩ := hent.current
    exact absurd ⟨r, hr, hgrants.session⟩ ha.2

/-! ### Blocks -/

theorem Runtime.Settles.released {c c' : Runtime} (h : c.Settles c') (hb : c.blocked = some s)
    (hn : c'.blocked ≠ some s) : ∃ other, c'.blocked = some other ∧ other ≠ s := by
  obtain ⟨r, hr, hb⟩ := Option.bind_eq_some_iff.1 hb
  obtain ⟨r', hr', hlk⟩ := h.exists_mem hr
  have hblocked : c'.blocked = r'.blockedSessionId := by rw [Runtime.blocked, hr']; rfl
  rcases hlk.blocked with he | ⟨-, -, he, hsome⟩
  · exact absurd (hblocked.trans (he.trans hb)) hn
  · obtain ⟨other, ho⟩ := Option.isSome_iff_exists.1 hsome
    exact ⟨other, hblocked.trans (he.trans ho), fun h => hn (hblocked.trans (he.trans (h ▸ ho)))⟩

theorem Runtime.blocked_updateRecovery {c : Runtime} {f : ClientRecoveryState → ClientRecoveryState}
    (hf : ∀ r, (f r).blockedSessionId = r.blockedSessionId) : (c.updateRecovery f).blocked = c.blocked := by
  unfold Runtime.blocked Runtime.updateRecovery
  cases c.recovery with
  | none => rfl
  | some r => exact hf r

theorem Runtime.blocked_saveRecovery {c : Runtime} : c.saveRecovery.blocked = c.blocked := by
  unfold Runtime.saveRecovery
  split
  · rfl
  · rename_i r hr
    rw [Runtime.blocked, Runtime.blocked, hr]
    rfl

section

variable {c : Runtime} {r : ClientRecoveryState} {s' : UUID}

theorem Runtime.blocked_set {f : ClientRecoveryState → ClientRecoveryState} (hr : c.recovery = some r)
    (hf : (f r).blockedSessionId = some s') : (c.updateRecovery f).blocked = some s' := by
  rw [Runtime.blocked, Runtime.updateRecovery_of_eq hr]
  exact hf

theorem Runtime.recordLock_blocked (hr : c.recovery = some r) (n : ℤ) :
    (c.recordLock s' n).blocked = some s' :=
  blocked_set hr rfl

theorem Runtime.block_blocked (hr : c.recovery = some r) : (c.block s').blocked = some s' :=
  blocked_set hr rfl

end

theorem Does.released {c : ClientConfig} {w' : Runtime × Exchanges} (h : Does env k c.world w')
    (e : ClientEvent) (hb : c.own.blocked = some s) (hn : w'.1.blocked ≠ some s) :
    Released env s c w'.1.blocked e := by
  obtain ⟨own, rest, running⟩ := c
  generalize hw : Config.world ⟨own, rest, running⟩ = w at h
  cases h with
  | act h =>
    cases h with
    | settle h =>
      cases hw
      obtain ⟨other, ho, hne⟩ := h.released hb hn
      exact .replaced ho hne
    | carry => cases hw; exact absurd hb hn
    | dropAck | advance | dropLock =>
      cases hw
      refine absurd (Eq.trans ?_ hb) hn
      exact Runtime.blocked_updateRecovery fun _ => rfl
    | save => cases hw; exact absurd (Runtime.blocked_saveRecovery.trans hb) hn
    | @lock c x r command s' hr =>
      cases hw
      have hset : (own.recordLock s' command.sequence).blocked = some s' := Runtime.recordLock_blocked hr _
      exact .replaced hset fun he => hn (he ▸ hset)
    | @block c x r s' hr =>
      cases hw
      have hset : (own.block s').blocked = some s' := Runtime.block_blocked hr
      exact .replaced hset fun he => hn (he ▸ hset)
    | @start c x r command started hr hd ht he =>
      cases hw
      by_cases ha : r.admitsStart started command.sequence
      · exact .started hr hd ht he ha
      · refine absurd ?_ hn
        obtain ⟨r', hr', hb⟩ := Option.bind_eq_some_iff.1 hb
        cases hr.symm.trans hr'
        refine Runtime.blocked_set hr ?_
        rw [ClientRecoveryState.acceptStarted, if_neg ha]
        exact hb
  | adopt => cases hw; exact absurd hb hn
  | @enter c x r result _ hr hc =>
    cases hw
    rcases own.enter_cases result r.lease with he | ⟨-, -, he⟩
    · obtain ⟨other, ho, hne⟩ := he.released hb hn
      exact .replaced ho hne
    · refine absurd ?_ hn
      rw [he, Runtime.blocked_saveRecovery]
      have hu : own.unlock.blocked = own.blocked := by
        rw [Runtime.blocked, own.unlock_recovery, Runtime.blocked]
      have hw : (own.unlock.welcome result).blocked = own.unlock.blocked :=
        Runtime.blocked_updateRecovery (f := fun r => { r with locallyLocked := false }) fun _ => rfl
      exact hw.trans (hu.trans hb)

/-- Locking takes the session away and blocks it. -/
theorem Guarded.lockLocal_blocked {c : Runtime} {x : Exchanges} (h : Guarded env (c, x)) (hs : c.Shows s) :
    c.lockLocal.blocked = some s := by
  obtain ⟨hl, -, -, r, -, hr, -, -⟩ := h.active hs.active
  have hn : ¬ (c.locallyLocked = true ∧ c.view.mode = .locked) :=
    fun h => Bool.false_ne_true (hl.symm.trans h.1)
  rw [Runtime.lockLocal, if_neg hn]
  refine Runtime.blocked_set ((Runtime.setSessionActive_recovery false).trans hr) ?_
  rw [if_pos hs.active, hs.session]
  rfl

theorem Guarded.restart_released {c : ClientConfig} (h : Guarded env c.world) (n : Instant)
    (hn : (c.own.restart env n).blocked ≠ some s) :
    Released env s c (c.own.restart env n).blocked (.restart n) := by
  have hr : c.own.Restarted env (c.own.restart env n) := c.own.restart_restarted n
  refine .restarted fun hb => hn ?_
  obtain ⟨r, hhead, hb⟩ := Option.bind_eq_some_iff.1 hb
  rcases hr.recovery with ⟨r₁, r', st, hhead₁, hr', ht, -⟩ | ⟨-, hnone⟩
  · cases hhead.symm.trans hhead₁
    rw [Runtime.blocked, hr']
    exact ht.blockedSessionId.trans hb
  · have hmem := List.mem_of_mem_head? hhead
    rcases hnone with hnone | hst
    · rw [hnone] at hmem
      cases hmem
    · obtain ⟨⟨st, hst', -⟩, -⟩ := h.saved r hmem
      cases hst.symm.trans hst'

/-! ### Events of a run -/

section

variable {c : ClientConfig} {e : ClientEvent} {w' : Runtime × Exchanges}

theorem Guarded.step_entered (hc : Guarded env c.world) (h : (client env offered).Step (Does env) c e w')
    (hn : ¬ c.own.Shows s) (hs : w'.1.Shows s) :
    (∃ k p, c.running = some (k, p) ∧ k.IsLogin) ∧ w'.1.Entered env s ∧ c.own.blocked ≠ some s := by
  cases h with
  | still => exact absurd hs hn
  | move i => exact absurd ((Runtime.move_settles i).shows hs) hn
  | restart n => exact absurd hs.active (c.own.restart_restarted n).view
  | go hk h | answer _ hk h =>
    obtain ⟨hl, he⟩ := h.entered hc hn hs
    exact ⟨⟨_, _, hk, hl⟩, he⟩

theorem Guarded.step_leaseTaken (hc : Guarded env c.world) (h : (client env offered).Step (Does env) c e w')
    (hb : ¬ (c.own.Shows s ∧ ¬ c.own.LeaseFor s)) (ha : w'.1.Shows s ∧ ¬ w'.1.LeaseFor s) :
    LeaseTaken env s c.world w' := by
  cases h with
  | still => exact absurd ha hb
  | move i =>
    have hs : c.own.Settles (c.own.move env i) := c.own.move_settles i
    exact absurd ⟨hs.shows ha.1, fun hl => ha.2 (hs.leaseFor hl)⟩ hb
  | restart n => exact absurd ha.1.active (c.own.restart_restarted n).view
  | go hk h | answer _ hk h => exact h.leaseTaken hc hb ha

theorem Guarded.step_released (hc : Guarded env c.world) (h : (client env offered).Step (Does env) c e w')
    (hb : c.own.blocked = some s) (hn : w'.1.blocked ≠ some s) : Released env s c w'.1.blocked e := by
  cases h with
  | still => exact absurd hb hn
  | move i =>
    have hs : c.own.Settles (c.own.move env i) := c.own.move_settles i
    obtain ⟨other, ho, hne⟩ := hs.released hb hn
    exact .replaced ho hne
  | restart n => exact hc.restart_released n hn
  | go hk h | answer _ hk h => exact h.released _ hb hn

end

variable (env offered) in
/-- A blocked session that is active later was released and then entered anew. -/
theorem reentered_of_blocked {c : ClientConfig}
    (hc : (client env offered).Sound (Does env) (Guarded env) Current c) {fs : List ClientEvent}
    (hb : c.own.blocked = some s) (hs : ((client env offered).run c fs).own.Shows s) :
    ∃ xs e ys f zs, fs = xs ++ e :: (ys ++ f :: zs) ∧
      Released env s ((client env offered).run c xs) ((client env offered).run c (xs ++ [e])).own.blocked e ∧
      (∃ k p, ((client env offered).run c (xs ++ e :: ys)).running = some (k, p) ∧ k.IsLogin) ∧
      ((client env offered).run c (xs ++ e :: ys ++ [f])).own.Entered env s := by
  have v := client_verified env offered
  have hend := (v.run hc fs).inv.blocked_ne hs
  obtain ⟨xs, e, rest, rfl, hbefore, hafter⟩ :=
    System.exists_event (M := client env offered) (P := fun c => c.own.blocked ≠ some s) (not_not.2 hb) hend
  have hx := v.run hc xs
  rw [not_not] at hbefore
  have hstep := v.step hc xs e
  have hidle : ¬ ((client env offered).run c (xs ++ [e])).own.Shows s := by
    rw [System.run_concat]
    intro hshows
    by_cases hprev : ((client env offered).run c xs).own.Shows s
    · exact hx.inv.blocked_ne hprev hbefore
    · exact (hx.inv.step_entered hstep hprev hshows).2.2 hbefore
  have hs' : ((client env offered).run ((client env offered).run c (xs ++ [e])) rest).own.Shows s := by
    rw [← System.run_append, List.append_assoc]
    exact hs
  obtain ⟨ys, f, zs, rfl, hnot, henter⟩ :=
    System.exists_event (M := client env offered) (P := fun c => c.own.Shows s) hidle hs'
  have hsplit : xs ++ e :: ys = xs ++ [e] ++ ys := by rw [List.append_assoc]; rfl
  rw [← System.run_append, ← hsplit] at hnot henter
  refine ⟨xs, e, ys, f, zs, rfl, ?_, ?_⟩
  · rw [System.run_concat]
    exact hx.inv.step_released hstep hbefore hafter
  · obtain ⟨hlogin, hentered, -⟩ := (v.run hc _).inv.step_entered (v.step hc (xs ++ e :: ys) f) hnot henter
    exact ⟨hlogin, by rw [System.run_concat]; exact hentered⟩

/-- Over every run of the client: an active session is entitled after every tick; none is active after a
restart; it became active in a login that found it entitled, with all commands applied; the lease is its own
until an exchange takes up one of another session; and locked it is blocked, until a start lifts the block,
another session takes its place or a restart loses it, and even then becomes active only in a new login. -/
theorem session_entitlement (env : ClientEnvironment) (offered : MachineCommand → Bool) (utcNow : Instant)
    (es : List ClientEvent) :
    let M := client env offered
    let c := M.run (firstStart env utcNow) es
    ((c.own.tick env).view.mode = .active → (c.own.tick env).Entitled env) ∧
    (∀ n, (c.own.restart env n).view.mode ≠ .active) ∧
    (∀ e s, ¬ c.own.Shows s → (M.next c e).own.Shows s →
      (∃ k p, c.running = some (k, p) ∧ k.IsLogin) ∧ (M.next c e).own.Entered env s) ∧
    (∀ s, c.own.Shows s → ¬ c.own.LeaseFor s → ∃ xs e ys, es = xs ++ e :: ys ∧
      LeaseTaken env s (M.run (firstStart env utcNow) xs).world
        (M.run (firstStart env utcNow) (xs ++ [e])).world) ∧
    (∀ s, c.own.Shows s → c.own.lockLocal.blocked = some s) ∧
    ∀ s fs, c.own.blocked = some s → (M.run c fs).own.Shows s →
      ∃ xs e ys f zs, fs = xs ++ e :: (ys ++ f :: zs) ∧
        Released env s (M.run c xs) (M.run c (xs ++ [e])).own.blocked e ∧
        (∃ k p, (M.run c (xs ++ e :: ys)).running = some (k, p) ∧ k.IsLogin) ∧
        (M.run c (xs ++ e :: ys ++ [f])).own.Entered env s := by
  have v := client_verified env offered
  have h₀ := firstStart_sound env offered utcNow
  have hc := v.run h₀ es
  refine ⟨hc.inv.tick, fun n => (Runtime.restart_restarted _ n).view, fun e s hn hs => ?_, fun s hs hl => ?_,
    fun s => hc.inv.lockLocal_blocked, fun s fs => reentered_of_blocked env offered hc⟩
  · obtain ⟨hlogin, hentered, -⟩ := hc.inv.step_entered (v.step h₀ es e) hn hs
    exact ⟨hlogin, hentered⟩
  · have hstart : ¬ ((firstStart env utcNow).own.Shows s ∧ ¬ (firstStart env utcNow).own.LeaseFor s) :=
      fun h => (Runtime.installed.restart_restarted utcNow).view h.1.active
    obtain ⟨xs, e, ys, rfl, hb, ha⟩ := System.exists_event (M := client env offered)
      (P := fun c => c.own.Shows s ∧ ¬ c.own.LeaseFor s) hstart ⟨hs, hl⟩
    refine ⟨xs, e, ys, rfl, ?_⟩
    rw [System.run_concat]
    exact (v.run h₀ xs).inv.step_leaseTaken (v.step h₀ xs e) hb ha

/-! ### A station at which sessions change hands -/

namespace Handover

def station : ClientEnvironment := ⟨false, some 5⟩

def policy : SignedStationPolicy := ⟨.ok (), 5, 1, .ok (), .ok ()⟩

/-- An hour for the session, or the announcement of a booking. -/
def lease (session : Option UUID) (cursor : ℤ) : SessionLease where
  leaseId := 1
  stationId := 5
  sessionId := session
  customerId := some 7
  sessionEndsAt := session.map fun _ => 3600000000
  configurationVersion := 1
  issuedAt := 0
  expiresAt := 3600000000
  graceEndsAt := 3600000000
  commandCursor := cursor
  directive := if session.isSome then .active else .lock
  clientUpdate := none
  billingMode := some .timeBalance
  startedAt := some 0
  balanceSeconds := some 3600
  assignmentId := if session.isSome then none else some 9
  assignmentExpiresAt := if session.isSome then none else some 3600000000

def signed (session : Option UUID) (cursor : ℤ) : Answer := .lease ⟨.lease (lease session cursor), true, true⟩

def command (sequence : ℤ) (type : CommandType) (session : UUID) : MachineCommand :=
  ⟨sequence, type, 1, .object (some 5) (some session), false⟩

/-- The job under way goes on, with an answer wherever it waits. -/
def resume (answers : List Answer) : List ClientEvent :=
  answers.flatMap fun a => .answer a :: List.replicate 20 .go

def job (k : Job) (answers : List Answer) : List ClientEvent :=
  .start k :: List.replicate 20 .go ++ resume answers

def login (answers : List Answer) : List ClientEvent :=
  job (.handle (.login (some "customer") (some "password")) false) answers

def run (es : List ClientEvent) : ClientConfig := (client station fun _ => true).run (firstStart station 0) es

/-- The customer of session 1 logs in. -/
def arrival : List ClientEvent :=
  job .refresh [.done, .policy policy, signed none 0, .commands [], .done] ++
    login [.session ⟨1, 3600000000, 0⟩, signed (some 1) 1, .commands [command 1 .sessionStarted 1], .done]

/-- A refresh takes up a lease of session 2 and then loses the network. -/
def overtaken : List ClientEvent := arrival ++ job .refresh [.policy policy, signed (some 2) 1, .lost, .done]

/-- One poll brings a lock of session 1 and one of session 2. -/
def locked : List ClientEvent := arrival ++
  job .refresh [.policy policy, signed (some 1) 3, .commands [command 2 .forceLock 1, command 3 .forceLock 2]]

def relogged : List ClientEvent := locked ++ resume [.done, .done, .done] ++
  login [.session ⟨1, 3600000000, 0⟩, signed (some 1) 3, .commands []]

/-- Windows stops enforcing the policy; the lock of the next tick is not saved before the restart. -/
def unenforced : List ClientEvent := arrival ++ [.move (.appIdentity false), .move .tick]

def restarted : List ClientEvent := unenforced ++ [.move (.appIdentity true), .restart 0] ++
  login [.done, .session ⟨1, 3600000000, 0⟩, signed (some 1) 1, .commands []]

/-- A tick leaves session 1 active under a lease for session 2; and session 1 is active again after it was
locked, without a start above the pending lock and after a restart that lost the lock. -/
theorem unentitled :
    (((run overtaken).own.tick station).view = ⟨.active, some 1⟩ ∧
      ((run overtaken).own.tick station).recovery.map (·.lease.sessionId) = some (some 2)) ∧
    ((run locked).own.blocked = some 1 ∧ (run locked).own.recovery.map (·.pendingLockSequence) = some
      (some 2) ∧ (run relogged).own.view = ⟨.active, some 1⟩ ∧ (run relogged).rest.delivered =
        [command 2 .forceLock 1, command 3 .forceLock 2, command 1 .sessionStarted 1]) ∧
    (run unenforced).own.blocked = some 1 ∧ (run restarted).own.view = ⟨.active, some 1⟩ ∧
      (run restarted).rest.delivered = [command 1 .sessionStarted 1] := by
  decide +kernel

end Handover

end GManager.Client
