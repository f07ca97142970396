import GManager.MachineIdentities
import GManager.Growth
import GManager.Occurrences

/-!
# The life of a machine identity

`Ages` says once what a request does to the three tables: rows go on, by `Follows`, and new ones come
for certain stations only. A revoked identity stays revoked and a rotating one keeps its overlap, so a
lapsed identity stays lapsed; an enrolment token or a challenge that is used stays used. `Orderly` is
about the identities of a station among themselves: one is active at most, and their key versions rise
in the order of their enrolment.
-/

namespace GManager.Machines

open Txn

/-! ### Rows and tables -/

structure StationMachineIdentity.Follows (i i' : StationMachineIdentity) : Prop where
  id : i'.id = i.id
  stationId : i'.stationId = i.stationId
  keyVersion : i'.keyVersion = i.keyVersion
  revoked : i.status = .revoked → i'.status = .revoked
  rotating : i.status = .rotating → i'.status = .revoked ∨ i'.status = .rotating ∧
    i'.overlapExpiresAt = i.overlapExpiresAt

structure StationEnrollmentToken.Follows (t t' : StationEnrollmentToken) : Prop where
  tokenHash : t'.tokenHash = t.tokenHash
  stationId : t'.stationId = t.stationId
  expiresAt : t'.expiresAt = t.expiresAt
  used : t.status ≠ .active → t' = t

structure StationAuthChallenge.Follows (x x' : StationAuthChallenge) : Prop where
  id : x'.id = x.id
  identityId : x'.identityId = x.identityId
  consumedAt : x.consumedAt ≠ none → x'.consumedAt ≠ none

/-- What a request does; `U` are the stations that it may create an enrolment token for, and `V` those that
it may enrol an identity of. -/
structure Ages (U V : UUID → Prop) (db db' : MachineDb) : Prop where
  clock : db.clock.now ≤ db'.clock.now
  tokens : db.tokens.Grows StationEnrollmentToken.Follows (fun n => U n.stationId) db'.tokens
  identities : db.identities.Grows StationMachineIdentity.Follows (fun n => V n.stationId) db'.identities
  challenges : db.challenges.Grows StationAuthChallenge.Follows (fun _ => True) db'.challenges

/-- The identity is revoked, or its overlap is over. -/
def StationMachineIdentity.Lapsed (now : Instant) (i : StationMachineIdentity) : Prop :=
  i.status = .revoked ∨ i.status = .rotating ∧ ∀ t, i.overlapExpiresAt = some t → t ≤ now

/-- One identity of a station is active at most, and the key versions of a station rise. -/
structure Orderly (t : Table StationMachineIdentity.id) : Prop where
  single : ∀ i ∈ t, ∀ j ∈ t, i.stationId = j.stationId → i.status = .active → j.status = .active → i = j
  versions : t.rows.Pairwise fun i j => i.stationId = j.stationId → i.keyVersion < j.keyVersion

/-- Only the clock was read. -/
def Reads (db db' : MachineDb) : Prop := ∃ k : Clock, db.clock.now ≤ k.now ∧ db' = { db with clock := k }

section rows

variable {U V : UUID → Prop} {db db' : MachineDb} {i i' : StationMachineIdentity} {now now' : Instant}
  {identities identities' : Table StationMachineIdentity.id}

theorem StationMachineIdentity.Follows.refl (i : StationMachineIdentity) : i.Follows i :=
  ⟨rfl, rfl, rfl, fun h => h, fun h => .inr ⟨h, rfl⟩⟩

theorem StationMachineIdentity.Follows.trans {a b c : StationMachineIdentity} (h : a.Follows b)
    (h' : b.Follows c) :
    a.Follows c := by
  refine ⟨h'.id.trans h.id, h'.stationId.trans h.stationId, h'.keyVersion.trans h.keyVersion,
    fun hr => h'.revoked (h.revoked hr), fun hr => ?_⟩
  rcases h.rotating hr with hb | ⟨hb, ho⟩
  · exact .inl (h'.revoked hb)
  · rcases h'.rotating hb with hc | ⟨hc, ho'⟩
    · exact .inl hc
    · exact .inr ⟨hc, ho'.trans ho⟩

theorem StationEnrollmentToken.Follows.refl (t : StationEnrollmentToken) : t.Follows t :=
  ⟨rfl, rfl, rfl, fun _ => rfl⟩

theorem StationEnrollmentToken.Follows.trans {a b c : StationEnrollmentToken} (h : a.Follows b)
    (h' : b.Follows c) :
    a.Follows c := by
  refine ⟨h'.tokenHash.trans h.tokenHash, h'.stationId.trans h.stationId,
    h'.expiresAt.trans h.expiresAt, fun ha => ?_⟩
  have hb : b = a := h.used ha
  rw [h'.used (hb ▸ ha), hb]

theorem StationAuthChallenge.Follows.refl (x : StationAuthChallenge) : x.Follows x := ⟨rfl, rfl, fun h => h⟩

theorem StationMachineIdentity.follows_rotatedFor (stationId : UUID) (now : Instant)
    (i : StationMachineIdentity) : i.Follows (i.rotatedFor stationId now) := by
  refine ⟨rfl, rfl, rfl, fun h => ?_, fun h => .inr ?_⟩
  · simp [rotatedFor, h]
  · simp [rotatedFor, h]

theorem StationMachineIdentity.follows_revokedFor (stationId : UUID) (now : Instant)
    (i : StationMachineIdentity) : i.Follows (i.revokedFor stationId now) := by
  refine ⟨rfl, rfl, rfl, fun h => ?_, fun h => ?_⟩
  · simp [revokedFor, h]
  · by_cases hs : i.stationId = stationId
    · exact .inl (by simp [revokedFor, hs])
    · exact .inr (by simp [revokedFor, hs, h])

theorem StationEnrollmentToken.follows_revokedFor (stationId : UUID) (t : StationEnrollmentToken) :
    t.Follows (t.revokedFor stationId) := by
  refine ⟨rfl, rfl, rfl, fun h => ?_⟩
  simp [revokedFor, h]

theorem grows_revokedFor (stationId : UUID) {N : StationEnrollmentToken → Prop}
    (tokens : Table StationEnrollmentToken.tokenHash) : tokens.Grows StationEnrollmentToken.Follows N
      (tokens.edit (StationEnrollmentToken.revokedFor stationId) fun _ => rfl) :=
  .edit _ fun t _ => t.follows_revokedFor stationId

/-- A lapsed identity stays lapsed. -/
theorem StationMachineIdentity.Lapsed.follows (h : i.Lapsed now) (hf : i.Follows i') (hn : now ≤ now') :
    i'.Lapsed now' := by
  rcases h with h | ⟨h, ho⟩
  · exact .inl (hf.revoked h)
  · rcases hf.rotating h with h' | ⟨h', ho'⟩
    · exact .inl h'
    · exact .inr ⟨h', fun t ht => le_trans (ho t (ho' ▸ ht)) hn⟩

theorem Ages.of_eq (hc : db.clock.now ≤ db'.clock.now) (ht : db'.tokens = db.tokens)
    (hi : db'.identities = db.identities) (hx : db'.challenges = db.challenges) : Ages U V db db' := by
  refine ⟨hc, ?_, ?_, ?_⟩
  · rw [ht]
    exact .refl .refl _
  · rw [hi]
    exact .refl .refl _
  · rw [hx]
    exact .refl .refl _

theorem Ages.mono {U' V' : UUID → Prop} (h : Ages U V db db') (hU : ∀ s, U s → U' s) (hV : ∀ s, V s → V' s) :
    Ages U' V' db db' :=
  ⟨h.clock, h.tokens.mono (fun _ _ => id) fun _ => hU _, h.identities.mono (fun _ _ => id) fun _ =>
    hV _, h.challenges⟩

theorem Reads.ages (h : Reads db db') : Ages U V db db' := by
  obtain ⟨k, hk, rfl⟩ := h
  exact .of_eq hk rfl rfl rfl

/-- Identities are rewritten, and none becomes active. -/
theorem Orderly.edit (h : Orderly identities) {f : StationMachineIdentity → StationMachineIdentity}
    (hf : ∀ i, (f i).id = i.id) (hs : ∀ i ∈ identities, (f i).stationId = i.stationId)
    (hv : ∀ i ∈ identities, (f i).keyVersion = i.keyVersion)
    (ha : ∀ i ∈ identities, (f i).status = .active → i.status = .active) :
    Orderly (identities.edit f hf) := by
  constructor
  · intro x hx y hy hxy hxa hya
    obtain ⟨i, hi, rfl⟩ := Table.mem_edit.1 hx
    obtain ⟨j, hj, rfl⟩ := Table.mem_edit.1 hy
    rw [hs i hi, hs j hj] at hxy
    rw [h.single i hi j hj hxy (ha i hi hxa) (ha j hj hya)]
  · show (identities.rows.map f).Pairwise _
    rw [List.pairwise_map]
    refine h.versions.imp_of_mem fun {i j} hi hj hij hsame => ?_
    rw [hv i hi, hv j hj]
    exact hij (by rw [← hs i hi, ← hs j hj, hsame])

/-- A station without active identity gets one with a higher key version. -/
theorem Orderly.insert (h : Orderly identities) {n : StationMachineIdentity}
    (hins : identities.insert n = some identities')
    (hn : ∀ i ∈ identities, i.stationId = n.stationId → i.status ≠ .active ∧ i.keyVersion < n.keyVersion) :
    Orderly identities' := by
  constructor
  · intro i hi j hj hij hia hja
    rcases (Table.mem_insert hins).1 hi with hi | rfl
    · rcases (Table.mem_insert hins).1 hj with hj | rfl
      · exact h.single i hi j hj hij hia hja
      · exact absurd hia (hn i hi hij).1
    · rcases (Table.mem_insert hins).1 hj with hj | rfl
      · exact absurd hja (hn j hj hij.symm).1
      · rfl
  · rw [(Table.insert_eq_some.1 hins).2, List.pairwise_append]
    refine ⟨h.versions, List.pairwise_singleton _ _, fun i hi m hm hsame => ?_⟩
    rw [List.mem_singleton.1 hm] at hsame ⊢
    exact (hn i hi hsame).2

theorem keyVersion_lt_next {existing : List StationMachineIdentity} (hi : i ∈ existing) :
    i.keyVersion < nextVersion existing := by
  unfold nextVersion
  refine Nat.lt_succ_of_le ?_
  induction existing with
  | nil => cases hi
  | cons j js ih =>
    simp only [List.map_cons, List.foldr_cons]
    rcases List.mem_cons.1 hi with rfl | hi
    · exact le_max_left _ _
    · exact le_trans (ih hi) (le_max_right _ _)

theorem mem_identitiesOf {stationId : UUID} : i ∈ db.identitiesOf stationId ↔ i ∈ db.identities ∧
    i.stationId = stationId := by
  unfold MachineDb.identitiesOf
  rw [(List.perm_insertionSort _ _).mem_iff, List.mem_filter, beq_iff_eq, Table.mem_rows]

end rows

/-! ### Requests -/

section requests

variable {K : MachineCrypto} {c : MachineCall} {U V : UUID → Prop} {db : MachineDb}
  {i : StationMachineIdentity}

@[simp] theorem wp_instant {Q : Instant → MachineDb → Prop} :
    wp instant Q c db ↔ Q db.clock.next.now { db with clock := db.clock.next } :=
  ⟨fun h => h _ _ rfl, fun h a db' hx => by
    cases hx
    exact h⟩

@[simp] theorem wp_drawId {Q : UUID → MachineDb → Prop} :
    wp drawId Q c db ↔ Q db.issued { db with issued := db.issued + 1 } := by
  simp only [drawId, wp_bind, wp_get, wp_modify, wp_pure]

theorem valid_spec (i : StationMachineIdentity) :
    wp (valid i) (fun b db' => Reads db db' ∧ (b = true → ¬ i.Lapsed db.clock.now) ∧
      (b = false → i.status ≠ .active)) c db := by
  unfold valid
  split
  · rename_i ha
    exact wp_pure.2 ⟨⟨db.clock, le_rfl, rfl⟩, fun _ h => by simp [StationMachineIdentity.Lapsed, ha] at h,
      fun h => by cases h⟩
  · rename_i overlap hr ho
    simp only [wp_bind, wp_instant, wp_pure]
    refine ⟨⟨db.clock.next, db.clock.le_next, rfl⟩, fun hlt hl => ?_, fun _ => by simp [hr]⟩
    rcases hl with h | ⟨-, h⟩
    · simp [hr] at h
    · exact absurd (of_decide_eq_true hlt) (not_lt.2 (le_trans (h overlap ho) db.clock.le_next))
  · rename_i hna hnr
    exact wp_pure.2 ⟨⟨db.clock, le_rfl, rfl⟩, fun h => absurd h Bool.false_ne_true, fun _ h => hna h⟩

theorem anyValid_spec (is : List StationMachineIdentity) :
    wp (anyValid is) (fun b db' => Reads db db' ∧ (b = false → ∀ i ∈ is, i.status ≠ .active)) c db := by
  induction is generalizing db with
  | nil => exact wp_pure.2 ⟨⟨db.clock, le_rfl, rfl⟩, fun _ _ h => by cases h⟩
  | cons i is ih =>
    simp only [anyValid, wp_bind]
    refine wp_mono (valid_spec i) ?_
    rintro b db₁ ⟨⟨k, hk, rfl⟩, -, hf⟩
    cases b with
    | true => exact wp_pure.2 ⟨⟨k, hk, rfl⟩, fun h => by cases h⟩
    | false =>
      refine wp_mono ih ?_
      rintro b db₂ ⟨⟨k', hk', rfl⟩, hf'⟩
      refine ⟨⟨k', le_trans hk hk', rfl⟩, fun hb j hj => ?_⟩
      rcases List.mem_cons.1 hj with rfl | hj
      · exact hf rfl
      · exact hf' hb j hj

theorem requireValid_spec (id : UUID) :
    wp (requireValid id) (fun i db' => Reads db db' ∧ i ∈ db.identities ∧ i.id = id ∧
      ¬ i.Lapsed db.clock.now) c db := by
  simp only [requireValid, wp_bind, wp_get, wp_orThrow]
  intro i hi
  obtain ⟨hmem, hid⟩ := Table.find?_eq_some.1 hi
  refine wp_mono (valid_spec i) fun b db₁ hb => ?_
  simp only [wp_require, wp_pure]
  exact fun hok => ⟨hb.1, hmem, hid, hb.2.1 hok⟩

theorem createToken_spec (stationId : UUID) (purpose : EnrollmentPurpose) :
    wp (createToken K stationId purpose)
      (fun _ db' => Ages (· = stationId) V db db' ∧ db'.identities = db.identities) c db := by
  simp only [createToken, revokeTokens, wp_bind, wp_ask, wp_get, wp_orThrow, wp_require]
  intro station _ _
  refine wp_mono (anyValid_spec _) ?_
  rintro b db₁ ⟨⟨k, hk, rfl⟩, -⟩
  simp only [wp_instant, wp_modify, wp_drawId, wp_pure]
  intro _ _ tokens hins
  refine ⟨⟨le_trans hk k.le_next, ?_, .refl .refl _, .refl .refl _⟩, trivial⟩
  refine (grows_revokedFor stationId db.tokens).trans (.insert .refl hins rfl) (fun _ _ _ => .trans)
    fun n n' hn hf => ?_
  exact hf.stationId.trans hn

/-- No enrolment token of the station is active, and no identity stands. -/
def Off (stationId : UUID) (db : MachineDb) : Prop :=
  (∀ t ∈ db.tokens, t.stationId = stationId → t.status ≠ .active) ∧
    ∀ i ∈ db.identities, i.stationId = stationId → i.status = .revoked

theorem revoke_spec (stationId : UUID) :
    wp (revoke stationId) (fun _ db' => Ages U V db db' ∧ (Orderly db.identities → Orderly db'.identities) ∧
      Off stationId db')
      c db := by
  simp only [revoke, revokeTokens, wp_bind, wp_get, wp_orThrow, wp_instant, wp_modify, wp_pure]
  intro station _
  have hgrow : db.identities.Grows StationMachineIdentity.Follows (fun n => V n.stationId)
      (db.identities.edit (·.revokedFor stationId db.clock.next.now) fun _ => rfl) :=
    .edit _ fun i _ => i.follows_revokedFor stationId _
  refine ⟨⟨db.clock.le_next, grows_revokedFor stationId db.tokens, hgrow, .refl .refl _⟩, fun ho => ?_,
    fun t ht hs => ?_, fun i hi hs => ?_⟩
  · refine ho.edit _ (fun _ _ => rfl) (fun _ _ => rfl) fun i _ ha => ?_
    by_cases hs : i.stationId = stationId
    · simp [StationMachineIdentity.revokedFor, hs] at ha
    · simpa [StationMachineIdentity.revokedFor, hs] using ha
  · obtain ⟨t₀, -, rfl⟩ := List.mem_map.1 ht
    have hs₀ : t₀.stationId = stationId := hs
    by_cases ha : t₀.status = .active <;> simp [StationEnrollmentToken.revokedFor, hs₀, ha]
  · obtain ⟨i₀, -, rfl⟩ := List.mem_map.1 hi
    have hs₀ : i₀.stationId = stationId := hs
    simp [StationMachineIdentity.revokedFor, hs₀]

/-- An enrolment uses up an active token that has not expired. -/
theorem enroll_spec (r : EnrollRequest) :
    wp (enroll K r) (fun response db' => Ages U (· = response.stationId) db db' ∧
      (Orderly db.identities → Orderly db'.identities) ∧
      ∃ t ∈ db.tokens, t.tokenHash = K.hash r.enrollmentToken ∧ t.stationId = response.stationId ∧
      t.status = .active ∧
        db.clock.now < t.expiresAt ∧ ∃ t' ∈ db'.tokens, t'.tokenHash = t.tokenHash ∧
        t'.status = .consumed) c db := by
  simp only [enroll, wp_bind, wp_instant, wp_get, wp_orThrow, wp_require]
  rintro t ht ⟨hactive, hexp⟩ station _ key _ _
  obtain ⟨hmem, hhash⟩ := Table.find?_eq_some.1 ht
  refine wp_mono (anyValid_spec _) ?_
  rintro active db₁ ⟨⟨k, hk, rfl⟩, hnone⟩
  rintro ⟨hinit, -⟩
  have hnow : db.clock.now < t.expiresAt := lt_of_le_of_lt db.clock.le_next hexp
  have htokens : db.tokens.Grows StationEnrollmentToken.Follows (fun n => U n.stationId)
      (db.tokens.save { t with status := .consumed, consumedAt := some db.clock.next.now }) := by
    refine .save .refl fun x hx hk => ?_
    obtain rfl : x = t := Table.eq_of_key hx hmem hk
    exact ⟨rfl, rfl, rfl, fun h => absurd hactive h⟩
  have hused : ∃ t' ∈ db.tokens.save { t with status := .consumed, consumedAt := some db.clock.next.now },
      t'.tokenHash = t.tokenHash ∧ t'.status = .consumed := ⟨_, Table.mem_save_self hmem rfl, rfl, rfl⟩
  have hversion : ∀ i ∈ db.identities, i.stationId = t.stationId →
      i.keyVersion < nextVersion (db.identitiesOf t.stationId) :=
    fun i hi hs => keyVersion_lt_next (mem_identitiesOf.2 ⟨hi, hs⟩)
  by_cases hp : t.purpose = .rotation
  · simp only [Txn.when, if_pos hp, wp_modify, wp_drawId, wp_pure]
    intro identities hins
    refine ⟨⟨le_trans db.clock.le_next hk, htokens, ?_, .refl .refl _⟩, fun ho => ?_,
      t, hmem, hhash, rfl, hactive, hnow, hused⟩
    · have hgrow : db.identities.Grows StationMachineIdentity.Follows (fun n => n.stationId = t.stationId)
          (db.identities.edit (·.rotatedFor t.stationId db.clock.next.now) fun _ => rfl) :=
        .edit _ fun i _ => i.follows_rotatedFor t.stationId _
      exact hgrow.trans (.insert .refl hins rfl) (fun _ _ _ => .trans) fun n n' hn hf => hf.stationId.trans hn
    · have hedit :
          Orderly (db.identities.edit (·.rotatedFor t.stationId db.clock.next.now) fun _ => rfl) := by
        refine ho.edit _ (fun _ _ => rfl) (fun _ _ => rfl) fun i _ ha => ?_
        by_contra hn
        simp [StationMachineIdentity.rotatedFor, hn] at ha
      refine hedit.insert hins fun x hx hs => ?_
      obtain ⟨i, hi, rfl⟩ := List.mem_map.1 hx
      have hs₀ : i.stationId = t.stationId := hs
      refine ⟨fun ha => ?_, hversion i hi hs₀⟩
      by_cases hia : i.status = .active
      · simp [StationMachineIdentity.rotatedFor, hs₀, hia] at ha
      · simp [StationMachineIdentity.rotatedFor, hia] at ha
  · simp only [Txn.when, if_neg hp, wp_pure, wp_drawId, wp_modify]
    intro identities hins
    refine ⟨⟨le_trans db.clock.le_next hk, htokens, .insert .refl hins rfl, .refl .refl _⟩, fun ho => ?_,
      t, hmem, hhash, rfl, hactive, hnow, hused⟩
    have hinitial : t.purpose = .initial := by
      cases h : t.purpose with
      | initial => rfl
      | rotation => exact absurd h hp
    have hfalse : active = false := by simpa using fun h => hinit ⟨hinitial, h⟩
    exact ho.insert hins fun i hi hs => ⟨hnone hfalse i (mem_identitiesOf.2 ⟨hi, hs⟩), hversion i hi hs⟩

theorem challenge_spec (identityId : UUID) :
    wp (challenge K identityId) (fun response db' => Ages U V db db' ∧ db'.identities = db.identities ∧
      (∃ i ∈ db.identities, i.id = identityId ∧ ¬ i.Lapsed db.clock.now) ∧
      ∃ x ∈ db'.challenges, x.id = response.challengeId ∧ x.identityId = identityId) c db := by
  simp only [challenge, wp_bind, wp_ask]
  refine wp_mono (requireValid_spec identityId) ?_
  rintro i db₁ ⟨⟨k, hk, rfl⟩, hi, hid, hl⟩
  simp only [wp_instant, wp_drawId, wp_get, wp_require, wp_orThrow, wp_modify, wp_pure]
  intro _ challenges hins
  exact ⟨⟨le_trans hk k.le_next, .refl .refl _, .refl .refl _, .insert .refl hins trivial⟩, trivial,
    ⟨i, hi, hid, hl⟩, _, (Table.mem_insert hins).2 (.inr rfl), rfl, hid⟩

/-- A machine token is for an identity that stands, and uses up a challenge of this identity. -/
theorem token_spec (r : TokenRequest) :
    wp (token K r) (fun response db' => Ages U V db db' ∧ (Orderly db.identities → Orderly db'.identities) ∧
      (∃ i ∈ db.identities, i.id = r.identityId ∧ ¬ i.Lapsed db.clock.now ∧
        response.token = K.issueMachine ⟨i.id, i.stationId, i.keyVersion⟩ response.issuedAt) ∧
      ∃ x ∈ db.challenges, x.id = r.challengeId ∧ x.identityId = r.identityId ∧ x.consumedAt = none ∧
        ∃ x' ∈ db'.challenges, x'.id = x.id ∧ x'.consumedAt ≠ none) c db := by
  simp only [token, wp_bind, wp_instant]
  refine wp_mono (requireValid_spec r.identityId) ?_
  rintro i db₁ ⟨⟨k, hk, rfl⟩, hi, hid, hl⟩
  simp only [wp_get, wp_orThrow, wp_require, wp_modify, wp_pure]
  rintro x hx ⟨hfree, -, -⟩ -
  obtain ⟨hf, hxi⟩ := Option.filter_eq_some_iff.1 hx
  obtain ⟨hxmem, hxid⟩ := Table.find?_eq_some.1 hf
  have hstands : ¬ i.Lapsed db.clock.now := fun h => hl (h.follows (.refl i) db.clock.le_next)
  have hxi' : x.identityId = i.id := by simpa using hxi
  refine ⟨⟨le_trans (le_trans db.clock.le_next hk) k.le_next, .refl .refl _, ?_, ?_⟩, fun ho => ?_,
    ⟨i, hi, hid, hstands, rfl⟩,
    x, hxmem, hxid, hxi'.trans hid, hfree, _, Table.mem_save_self hxmem rfl, rfl, by simp⟩
  · refine .save .refl fun j hj hk => ?_
    obtain rfl : j = i := Table.eq_of_key hj hi hk
    exact ⟨rfl, rfl, rfl, fun h => h, fun h => .inr ⟨h, rfl⟩⟩
  · refine .save .refl fun y hy hk => ?_
    obtain rfl : y = x := Table.eq_of_key hy hxmem hk
    exact ⟨rfl, rfl, fun _ => by simp⟩
  · refine ho.edit _ (fun j hj => ?_) (fun j hj => ?_) fun j hj => ?_
    all_goals
      split
      · rename_i hk
        obtain rfl : j = i := Table.eq_of_key hj hi hk
        first | rfl | exact fun h => h
      · first | rfl | exact fun h => h

theorem authenticate_spec (bearer : String) :
    wp (authenticate K bearer) (fun p db' => Reads db db' ∧ ∀ principal, p = some principal →
      ∃ i ∈ db.identities, i.id = principal.identityId ∧ ¬ i.Lapsed db.clock.now) c db := by
  simp only [authenticate, wp_bind, wp_instant, wp_get]
  have hread : Reads db { db with clock := db.clock.next } := ⟨_, db.clock.le_next, rfl⟩
  cases K.parseMachine bearer db.clock.next.now with
  | none => exact wp_pure.2 ⟨hread, fun _ h => by cases h⟩
  | some claims =>
    dsimp only
    cases hf : db.identities.find? claims.identityId with
    | none => exact wp_pure.2 ⟨hread, fun _ h => by cases h⟩
    | some i =>
      obtain ⟨hi, -⟩ := Table.find?_eq_some.1 hf
      simp only [wp_ite]
      refine ⟨fun _ => wp_pure.2 ⟨hread, fun _ h => by cases h⟩, fun hno => ?_⟩
      have hnr : i.status ≠ .revoked := fun h => hno (.inr (.inr h))
      split
      · exact wp_pure.2 ⟨hread, fun _ h => by cases h⟩
      · rename_i overlap hr ho
        simp only [wp_bind, wp_instant, wp_ite, wp_pure]
        refine ⟨fun _ => ⟨⟨_, le_trans db.clock.le_next (Clock.le_next _), rfl⟩, fun _ h => by cases h⟩,
          fun hlt =>
          ⟨⟨_, le_trans db.clock.le_next (Clock.le_next _), rfl⟩, fun p hp => ?_⟩⟩
        cases hp
        refine ⟨i, hi, rfl, fun hl => ?_⟩
        rcases hl with h | ⟨-, h⟩
        · exact hnr h
        · exact hlt (le_trans (h overlap ho) (le_trans db.clock.le_next (Clock.le_next _)))
      · rename_i hn ho
        refine wp_pure.2 ⟨hread, fun p hp => ?_⟩
        cases hp
        refine ⟨i, hi, rfl, fun hl => ?_⟩
        rcases hl with h | ⟨h, -⟩
        · exact hnr h
        · cases hov : i.overlapExpiresAt with
          | none => exact hn h hov
          | some overlap => exact ho overlap h hov

end requests

end GManager.Machines
