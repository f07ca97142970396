import GManager.Accounts

/-!
# Accounts side by side

Whatever runs at once, the journal tells how every account has come to stand as it does, each entry by
someone who was allowed to (`Registry.Sound`). So no role ever changes, an owner is out of reach, a
deactivated account stays so for good, and whom the staff has brought in gets in only through one activation
with the code that was issued for it. An owner whom the provisioner inserts has no entry; there is one only
where no owner was at first.
-/

namespace GManager.Accounts

/-! ### What the journal tells -/

/-- How an account stands. -/
structure Standing where
  role : Role
  active : Bool
  mustChangePassword : Bool
  deleted : Bool
  deriving DecidableEq, Repr

def Account.standing (a : Account) : Standing := ⟨a.role, a.active, a.mustChangePassword, a.deleted⟩

/-- How an account stands after the entry that it begins with. -/
def Entry.begins : Entry → Option Standing
  | .userCreated actor _ role =>
    if isManagement actor.role ∧ creatable actor role then some ⟨role, true, false, false⟩ else none
  | .customerCreated actor _ _ _ => if onboards actor then some ⟨.customer, true, true, false⟩ else none
  | _ => none

/-- How an account stands after one more entry, if that was allowed. -/
def Standing.next (st : Standing) : Entry → Option Standing
  | .userDeactivated actor id =>
    if actor.id ≠ id ∧ governs actor st.role ∧ st.active ∧ st.deleted = false then
      some { st with active := false }
    else none
  | .userDeleted actor id =>
    if actor.id ≠ id ∧ governs actor st.role ∧ st.deleted = false then
      some { st with deleted := true, active := false }
    else none
  | .userRestored actor id =>
    if actor.id ≠ id ∧ governs actor st.role ∧ st.deleted then some { st with deleted := false } else none
  | .customerUpdated actor _ => if onboards actor ∧ st.role = .customer ∧
      st.deleted = false then some st else none
  | .customerDeactivated actor _ =>
    if onboards actor ∧ st.role = .customer ∧ st.active ∧ st.deleted = false then
      some { st with active := false }
    else none
  | .activated _ _ _ =>
    if st.role = .customer ∧ st.active ∧ st.deleted = false ∧ st.mustChangePassword then
      some { st with mustChangePassword := false }
    else none
  | .loggedIn _ => if st.mustChangePassword = false then some st else none
  | .passwordChanged _ => if st.active ∧ st.deleted = false ∧
      st.mustChangePassword = false then some st else none
  | .userCreated _ _ _ | .customerCreated _ _ _ _ => none

/-- How an account stands after all its entries; `seed` is how it stood before the first, if it was there. -/
def retrace (seed : Option Standing) (es : List Entry) : Option Standing :=
  match seed with
  | some st => es.foldlM Standing.next st
  | none => match es with
    | [] => none
    | e :: es => e.begins.bind fun st => es.foldlM Standing.next st

section standing

variable {st st' : Standing} {e : Entry} {es : List Entry} {seed : Option Standing}

theorem retrace_append (h : retrace seed es = some st) : retrace seed (es ++ [e]) = st.next e := by
  cases seed with
  | some st₀ =>
    simp only [retrace] at h ⊢
    rw [List.foldlM_append, h]
    simp
  | none =>
    cases es with
    | nil => cases h
    | cons e₀ es =>
      simp only [retrace, List.cons_append] at h ⊢
      obtain ⟨st₁, hst₁, h⟩ := Option.bind_eq_some_iff.1 h
      rw [hst₁, Option.bind_some, List.foldlM_append, h]
      simp

/-- `st'` is how the account may stand later. -/
structure Standing.Later (st st' : Standing) : Prop where
  role : st'.role = st.role
  active : st'.active = true → st.active = true
  mustChangePassword : st'.mustChangePassword = true → st.mustChangePassword = true
  owner : st.role = .owner → st' = st

theorem Standing.Later.refl (st : Standing) : st.Later st := ⟨rfl, id, id, fun _ => rfl⟩

theorem Standing.Later.trans {st'' : Standing} (h : st.Later st') (h' : st'.Later st'') : st.Later st'' where
  role := h'.role.trans h.role
  active := fun hactive => h.active (h'.active hactive)
  mustChangePassword := fun hmust => h.mustChangePassword (h'.mustChangePassword hmust)
  owner hrole := (h'.owner (h.role.trans hrole)).trans (h.owner hrole)

theorem governs_owner (actor : AuthenticatedUser) : governs actor .owner = false := by
  unfold governs
  split_ifs <;> simp

theorem Standing.next_later (h : st.next e = some st') : st.Later st' := by
  cases e <;> unfold Standing.next at h <;> dsimp only at h
  case userCreated => cases h
  case customerCreated => cases h
  all_goals
    split_ifs at h with hif
    cases h
    refine ⟨rfl, ?_, ?_, fun howner => ?_⟩
    all_goals simp_all [governs_owner]

theorem foldlM_next_later (h : es.foldlM Standing.next st = some st') : st.Later st' := by
  induction es generalizing st with
  | nil =>
    cases h
    exact .refl _
  | cons e es ih =>
    rw [List.foldlM_cons] at h
    obtain ⟨st₁, hnext, h⟩ := Option.bind_eq_some_iff.1 h
    exact (Standing.next_later hnext).trans (ih h)

theorem foldlM_mem_loggedIn {id : UUID} (h : es.foldlM Standing.next st = some st')
    (hmem : .loggedIn id ∈ es) : st'.mustChangePassword = false := by
  induction es generalizing st with
  | nil => cases hmem
  | cons e es ih =>
    rw [List.foldlM_cons] at h
    obtain ⟨st₁, hnext, hrest⟩ := Option.bind_eq_some_iff.1 h
    rcases List.mem_cons.1 hmem with rfl | hmem
    · have hlater := (Standing.next_later hnext).trans (foldlM_next_later hrest)
      by_contra hmust
      have hmust := hlater.mustChangePassword (Bool.not_eq_false _ ▸ hmust)
      simp [Standing.next, hmust] at hnext
    · exact ih hrest hmem

/-- After a login nobody has to change the password any more. -/
theorem retrace_mem_loggedIn {id : UUID} (h : retrace seed es = some st) (hmem : .loggedIn id ∈ es) :
    st.mustChangePassword = false := by
  cases seed with
  | some st₀ => exact foldlM_mem_loggedIn h hmem
  | none =>
    cases es with
    | nil => cases hmem
    | cons e es =>
      obtain ⟨st₁, hbegins, hrest⟩ := Option.bind_eq_some_iff.1 h
      rcases List.mem_cons.1 hmem with rfl | hmem
      · cases hbegins
      · exact foldlM_mem_loggedIn hrest hmem

/-- The owner as he is provisioned. -/
def Standing.provisioned : Standing := ⟨.owner, true, false, false⟩

/-- No owner was there at first. -/
def Unowned (seed : UUID → Option Standing) : Prop := ∀ id, ∀ st ∈ seed id, st.role ≠ .owner

/-- The entries `es` tell how the account has come to stand so: from how it stood at first or from the entry
that it begins with, or, where no owner was there at first, from its provisioning. -/
def Told (seed : UUID → Option Standing) (id : UUID) (es : List Entry) (st : Standing) : Prop :=
  retrace (seed id) es = some st ∨
    Unowned seed ∧ seed id = none ∧ retrace (some .provisioned) es = some st

section told

variable {seeds : UUID → Option Standing} {id : UUID}

theorem Told.append (h : Told seeds id es st) (hnext : st.next e = some st') :
    Told seeds id (es ++ [e]) st' := by
  rcases h with h | ⟨hno, hseed, h⟩
  · exact .inl ((retrace_append h).trans hnext)
  · exact .inr ⟨hno, hseed, (retrace_append h).trans hnext⟩

theorem Told.mem_loggedIn {x : UUID} (h : Told seeds id es st) (hmem : .loggedIn x ∈ es) :
    st.mustChangePassword = false := by
  rcases h with h | ⟨-, -, h⟩
  · exact retrace_mem_loggedIn h hmem
  · exact retrace_mem_loggedIn h hmem

/-- Whoever stood at first stands later. -/
theorem Told.later {st₀ : Standing} (h : Told seeds id es st) (hseed : seeds id = some st₀) :
    st₀.Later st := by
  rcases h with h | ⟨-, hnone, -⟩
  · rw [hseed] at h
    exact foldlM_next_later h
  · rw [hseed] at hnone
    cases hnone

theorem Entry.begins_role (h : e.begins = some st) : st.role ≠ .owner := by
  cases e with
  | userCreated actor id role =>
    obtain ⟨⟨-, hcreatable⟩, hst⟩ := Option.ite_none_right_eq_some.1 h
    cases hst
    rintro rfl
    unfold creatable at hcreatable
    split at hcreatable <;> simp at hcreatable
  | customerCreated actor id code issuedAt =>
    obtain ⟨-, hst⟩ := Option.ite_none_right_eq_some.1 h
    cases hst
    simp
  | _ => cases h

/-- An owner was there at first, and stands as he stood, or he was provisioned. -/
theorem Told.owner (h : Told seeds id es st) (howner : st.role = .owner) :
    seeds id = some st ∨ Unowned seeds ∧ st = .provisioned := by
  rcases h with h | ⟨hno, -, h⟩
  · left
    cases hseed : seeds id with
    | some st₀ =>
      rw [hseed] at h
      have hlater := foldlM_next_later h
      rw [hlater.owner (hlater.role.symm.trans howner)]
    | none =>
      rw [hseed] at h
      cases es with
      | nil => cases h
      | cons e es =>
        obtain ⟨st₁, hbegins, hrest⟩ := Option.bind_eq_some_iff.1 h
        exact absurd ((foldlM_next_later hrest).role.symm.trans howner) (Entry.begins_role hbegins)
  · exact .inr ⟨hno, (foldlM_next_later h).owner rfl⟩

end told

end standing

/-! ### The registry -/

/-- A table that holds a row is that row and the others. -/
theorem Table.mem_iff_of_mem {ρ κ : Type} {key : ρ → κ} {t : Table key} {r x : ρ} (hr : r ∈ t) :
    x ∈ t ↔ x = r ∨ x ∈ t ∧ key x ≠ key r := by
  constructor
  · intro hx
    by_cases hkey : key x = key r
    · exact .inl (Table.eq_of_key hx hr hkey)
    · exact .inr ⟨hx, hkey⟩
  · rintro (rfl | ⟨hx, -⟩)
    · exact hr
    · exact hx

structure Account.Later (a a' : Account) : Prop where
  id : a'.id = a.id
  version : a.version ≤ a'.version
  same : a'.version = a.version → a' = a
  standing : a.standing.Later a'.standing

theorem Account.Later.refl (a : Account) : a.Later a := ⟨rfl, le_rfl, fun _ => rfl, .refl _⟩

theorem Account.Later.trans {a a' a'' : Account} (h : a.Later a') (h' : a'.Later a'') : a.Later a'' where
  id := h'.id.trans h.id
  version := h.version.trans h'.version
  same := by
    intro hsame
    have hle := h.version
    have hle' := h'.version
    have heq := h.same (by omega)
    exact (h'.same (by omega)).trans heq
  standing := h.standing.trans h'.standing

namespace Registry

variable {s s' : Registry} {seed : UUID → Option Standing} {a a' : Account} {e : Entry}

def journalOf (s : Registry) (id : UUID) : List Entry := s.journal.filter fun e => e.account = id

/-- `s'` comes after `s`. -/
structure Later (s s' : Registry) : Prop where
  accounts : ∀ a ∈ s.accounts, ∃ a' ∈ s'.accounts, a.Later a'
  journal : s.journal <+: s'.journal

instance : IsPreorder Registry Later where
  refl s := ⟨fun a ha => ⟨a, ha, .refl a⟩, List.prefix_rfl⟩
  trans s s' s'' h h' := by
    refine ⟨fun a ha => ?_, h.journal.trans h'.journal⟩
    obtain ⟨a', ha', hlater⟩ := h.accounts a ha
    obtain ⟨a'', ha'', hlater'⟩ := h'.accounts a' ha'
    exact ⟨a'', ha'', hlater.trans hlater'⟩

theorem Later.copy (h : s.Later s') (ha : a ∈ s.accounts) : Table.Copy Account.version s'.accounts a := by
  obtain ⟨a', ha', hlater⟩ := h.accounts a ha
  intro r hr hkey
  obtain rfl := Table.eq_of_key hr ha' (hkey.trans hlater.id.symm)
  exact ⟨hlater.version, hlater.same⟩

/-- What was issued for the account, one hour before it is too late. -/
def Issued (s : Registry) (id : UUID) (tokenHash : String) (issuedAt : Instant) : Prop :=
  ∃ actor, .customerCreated actor id tokenHash issuedAt ∈ s.journal

/-- `seed` is how the accounts stood at first. -/
structure Sound (seed : UUID → Option Standing) (s : Registry) : Prop where
  told : ∀ a ∈ s.accounts, Told seed a.id (s.journalOf a.id) a.standing
  known : ∀ e ∈ s.journal, ∃ a ∈ s.accounts, a.id = e.account
  seeded : ∀ id, seed id ≠ none → ∃ a ∈ s.accounts, a.id = id
  issued : ∀ t ∈ s.tokens, ∃ issuedAt, s.Issued t.userId t.tokenHash issuedAt ∧
    t.expiresAt = issuedAt.plusSeconds activationHour
  activated : ∀ id h now, .activated id h now ∈ s.journal → ∃ issuedAt, s.Issued id h issuedAt ∧
    now < issuedAt.plusSeconds activationHour

theorem Issued.mono {id : UUID} {h : String} {t : Instant} (hissued : s.Issued id h t)
    (hle : s.journal <+: s'.journal) :
    s'.Issued id h t := by
  obtain ⟨actor, hmem⟩ := hissued
  exact ⟨actor, hle.subset hmem⟩

/-- One row that was written over, with its entry. -/
theorem Sound.write (hs : s.Sound seed) {accounts : Table Account.id} {b : Account} (ha : a ∈ s.accounts)
    (hid : b.id = a.id) (hversion : a.version < b.version ∨ b = a)
    (hnext : a.standing.next e = some b.standing) (haccount : e.account = a.id)
    (hmem : ∀ x, x ∈ accounts ↔ x = b ∨ x ∈ s.accounts ∧ x.id ≠ a.id)
    (hactivated : ∀ id h now, e = .activated id h now → ∃ issuedAt, s.Issued id h issuedAt ∧
      now < issuedAt.plusSeconds activationHour) :
    ({ s with accounts, journal := s.journal ++ [e] } : Registry).Sound seed ∧
      s.Later { s with accounts, journal := s.journal ++ [e] } := by
  have hgrow : s.journal <+: s.journal ++ [e] := List.prefix_append _ _
  have hjournal : ∀ id, (s.journal ++ [e]).filter (fun e => e.account = id) =
      s.journalOf id ++ if a.id = id then [e] else [] := by
    intro id
    rw [List.filter_append, journalOf]
    split_ifs with h <;> simp [haccount, h]
  have hkeep : ∀ id, (∃ x ∈ s.accounts, x.id = id) → ∃ x ∈ accounts, x.id = id := by
    rintro id ⟨x, hx, rfl⟩
    by_cases hxa : x.id = a.id
    · exact ⟨b, (hmem b).2 (.inl rfl), hid.trans hxa.symm⟩
    · exact ⟨x, (hmem x).2 (.inr ⟨hx, hxa⟩), rfl⟩
  have hlater : a.Later b := by
    refine ⟨hid, ?_, fun heq => ?_, Standing.next_later hnext⟩
    · rcases hversion with hlt | rfl
      · exact hlt.le
      · exact le_rfl
    · rcases hversion with hlt | rfl
      · omega
      · rfl
  refine ⟨⟨fun x hx => ?_, fun x hx => ?_, fun id hseed => hkeep id (hs.seeded id hseed), fun t ht => ?_,
    fun id h now hmem => ?_⟩, fun x hx => ?_, hgrow⟩
  · show Told seed x.id ((s.journal ++ [e]).filter fun e => e.account = x.id) x.standing
    rw [hjournal]
    rcases (hmem x).1 hx with rfl | ⟨hx, hne⟩
    · rw [hid, if_pos rfl]
      exact (hs.told a ha).append hnext
    · rw [if_neg (Ne.symm hne), List.append_nil]
      exact hs.told x hx
  · refine hkeep _ ?_
    rcases List.mem_append.1 hx with hx | hx
    · exact hs.known x hx
    · obtain rfl := List.mem_singleton.1 hx
      exact ⟨a, ha, haccount.symm⟩
  · obtain ⟨issuedAt, hissued, hexpires⟩ := hs.issued t ht
    exact ⟨issuedAt, hissued.mono hgrow, hexpires⟩
  · rcases List.mem_append.1 hmem with hmem | hmem
    · obtain ⟨issuedAt, hissued, hlt⟩ := hs.activated id h now hmem
      exact ⟨issuedAt, hissued.mono hgrow, hlt⟩
    · obtain ⟨issuedAt, hissued, hlt⟩ := hactivated id h now (List.mem_singleton.1 hmem).symm
      exact ⟨issuedAt, hissued.mono hgrow, hlt⟩
  · by_cases hxa : x.id = a.id
    · obtain rfl := Table.eq_of_key hx ha hxa
      exact ⟨b, (hmem b).2 (.inl rfl), hlater⟩
    · exact ⟨x, (hmem x).2 (.inr ⟨hx, hxa⟩), .refl x⟩

/-- What is written over the row that was read. -/
theorem saveAccount_good (h : s.saveAccount a a' e = some s') (hs : s.Sound seed)
    (hcopy : Table.Copy Account.version s.accounts a) (hid : a'.id = a.id) (hversion : a'.version = a.version)
    (hnext : a.standing.next e = some a'.standing) (haccount : e.account = a.id)
    (hactivated : ∀ id h now, e = .activated id h now → ∃ issuedAt, s.Issued id h issuedAt ∧
      now < issuedAt.plusSeconds activationHour) : s'.Sound seed ∧ s.Later s' := by
  unfold saveAccount at h
  split at h
  · cases h
  obtain ⟨accounts, hflush, rfl⟩ := Option.map_eq_some_iff.1 h
  obtain ⟨ha, ⟨rfl, rfl⟩ | rfl⟩ := Table.flush_eq_some hflush hcopy
  · exact hs.write ha rfl (.inr rfl) hnext haccount (fun x => Table.mem_iff_of_mem ha) hactivated
  · have hkey : a'.raise.id = a.id := hid
    refine hs.write (b := a'.raise) ha hkey (.inl ?_) hnext haccount
      (fun x => Table.mem_save_of_mem ha hkey) hactivated
    show a.version < a'.version + 1
    omega

/-- A new row, told by its first entry or provisioned. -/
theorem Sound.insert (hs : s.Sound seed) {accounts : Table Account.id} {tokens : Table Token.tokenHash}
    {es : List Entry} (hinsert : s.accounts.insert a = some accounts)
    (htold : retrace none es = some a.standing ∨
      Unowned seed ∧ es = [] ∧ a.standing = .provisioned) (haccount : ∀ e ∈ es, e.account = a.id)
    (hissued : ∀ t ∈ tokens, t ∈ s.tokens ∨ ∃ actor issuedAt, .customerCreated actor t.userId t.tokenHash
      issuedAt ∈ es ∧ t.expiresAt = issuedAt.plusSeconds activationHour)
        (hactivated : ∀ id h now, .activated id h now ∉ es) :
    ({ accounts, tokens, journal := s.journal ++ es } : Registry).Sound seed ∧
      s.Later { accounts, tokens, journal := s.journal ++ es } := by
  have hgrow : s.journal <+: s.journal ++ es := List.prefix_append _ _
  have hnew := (Table.insert_eq_some.1 hinsert).1
  have hmem : ∀ x, x ∈ accounts ↔ x ∈ s.accounts ∨ x = a := fun x => Table.mem_insert hinsert
  have hjournal : ∀ id, (s.journal ++ es).filter (fun e => e.account = id) =
      s.journalOf id ++ if a.id = id then es else [] := by
    intro id
    rw [List.filter_append, journalOf]
    congr 1
    split_ifs with h
    · exact List.filter_eq_self.2 fun e he => by simp [haccount e he, h]
    · exact List.filter_eq_nil_iff.2 fun e he => by simp [haccount e he, h]
  refine ⟨⟨fun x hx => ?_, fun x hx => ?_, fun id hseed => ?_, fun t ht => ?_, fun id h now hmem => ?_⟩,
    fun x hx => ⟨x, (hmem x).2 (.inl hx), .refl x⟩, hgrow⟩
  · show Told seed x.id ((s.journal ++ es).filter fun e => e.account = x.id) x.standing
    rw [hjournal]
    rcases (hmem x).1 hx with hx | rfl
    · rw [if_neg (Ne.symm (hnew x hx)), List.append_nil]
      exact hs.told x hx
    · have hnone : s.journalOf x.id = [] := by
        refine List.filter_eq_nil_iff.2 fun e' he' => ?_
        obtain ⟨y, hy, hye⟩ := hs.known e' he'
        simpa [← hye] using hnew y hy
      have hseed : seed x.id = none := by
        by_contra hsome
        obtain ⟨y, hy, hyx⟩ := hs.seeded x.id hsome
        exact hnew y hy hyx
      rw [hnone, if_pos rfl, List.nil_append]
      rcases htold with htold | ⟨hno, rfl, hstanding⟩
      · exact .inl (hseed ▸ htold)
      · exact .inr ⟨hno, hseed, congrArg some hstanding.symm⟩
  · rcases List.mem_append.1 hx with hx | hx
    · obtain ⟨y, hy, hye⟩ := hs.known x hx
      exact ⟨y, (hmem y).2 (.inl hy), hye⟩
    · exact ⟨a, (hmem a).2 (.inr rfl), (haccount x hx).symm⟩
  · obtain ⟨y, hy, hyid⟩ := hs.seeded id hseed
    exact ⟨y, (hmem y).2 (.inl hy), hyid⟩
  · rcases hissued t ht with ht | ⟨actor, issuedAt, hcreated, hexpires⟩
    · obtain ⟨issuedAt, hissued, hexpires⟩ := hs.issued t ht
      exact ⟨issuedAt, hissued.mono hgrow, hexpires⟩
    · exact ⟨issuedAt, ⟨actor, List.mem_append_right _ hcreated⟩, hexpires⟩
  · rcases List.mem_append.1 hmem with hmem | hmem
    · obtain ⟨issuedAt, hissued, hlt⟩ := hs.activated id h now hmem
      exact ⟨issuedAt, hissued.mono hgrow, hlt⟩
    · exact absurd hmem (hactivated id h now)

/-- A new row with its first entry. -/
theorem Sound.insert_begins (hs : s.Sound seed) {accounts : Table Account.id} {tokens : Table Token.tokenHash}
    (hinsert : s.accounts.insert a = some accounts) (hbegins : e.begins = some a.standing)
    (haccount : e.account = a.id) (hissued : ∀ t ∈ tokens, t ∈ s.tokens ∨
      ∃ actor issuedAt, e = .customerCreated actor t.userId t.tokenHash issuedAt ∧
      t.expiresAt = issuedAt.plusSeconds activationHour) :
    ({ accounts, tokens, journal := s.journal ++ [e] } : Registry).Sound seed ∧
      s.Later { accounts, tokens, journal := s.journal ++ [e] } := by
  refine hs.insert hinsert (.inl ?_) ?_ (fun t ht => (hissued t ht).imp_right ?_) fun id h now hmem => ?_
  · simp [retrace, hbegins]
  · intro e' he'
    obtain rfl := List.mem_singleton.1 he'
    exact haccount
  · rintro ⟨actor, issuedAt, rfl, hexpires⟩
    exact ⟨actor, issuedAt, List.mem_singleton.2 rfl, hexpires⟩
  · obtain rfl := List.mem_singleton.1 hmem
    cases hbegins

/-- Where an owner was there at first, one is always there. -/
theorem Sound.owned (hs : s.Sound seed) (hno : ¬ Unowned seed) : ∃ a ∈ s.accounts, a.role = .owner := by
  unfold Unowned at hno
  push Not at hno
  obtain ⟨id, st, hseed, howner⟩ := hno
  obtain ⟨a, ha, rfl⟩ := hs.seeded id (by rw [hseed]; simp)
  exact ⟨a, ha, ((hs.told a ha).later hseed).role.trans howner⟩

/-- Other codes: each is one that was there, consumed or not. -/
theorem Sound.tokens (hs : s.Sound seed) {tokens : Table Token.tokenHash}
    (h : ∀ t ∈ tokens, ∃ t' ∈ s.tokens, t.tokenHash = t'.tokenHash ∧ t.userId = t'.userId ∧
      t.expiresAt = t'.expiresAt) :
    ({ s with tokens } : Registry).Sound seed := by
  refine ⟨hs.told, hs.known, hs.seeded, fun t ht => ?_, hs.activated⟩
  obtain ⟨t', ht', hhash, huser, hexpires⟩ := h t ht
  obtain ⟨issuedAt, hissued, heq⟩ := hs.issued t' ht'
  exact ⟨issuedAt, by rw [hhash, huser]; exact hissued, hexpires.trans heq⟩

theorem consume_sound (hs : s.Sound seed) (userId : UUID) (now : Instant) :
    (s.consumeActiveForUser userId now).Sound seed := by
  refine hs.tokens fun t ht => ?_
  obtain ⟨t', ht', rfl⟩ := Table.mem_edit.1 ht
  refine ⟨t', ht', ?_⟩
  split <;> exact ⟨rfl, rfl, rfl⟩

theorem cleanup_sound (hs : s.Sound seed) (consumed expired : List String) (now : Instant) :
    (s.cleanup consumed expired now).Sound seed :=
  hs.tokens fun t ht => ⟨t, (Table.mem_delete.1 (Table.mem_delete.1 ht).1).1, rfl, rfl, rfl⟩

/-! ### Reading -/

theorem live_eq_some {id : UUID} : s.live id = some a ↔ a ∈ s.accounts ∧ a.id = id ∧ a.deleted = false := by
  rw [live, Option.filter_eq_some_iff, Table.find?_eq_some]
  simp [and_assoc]

theorem findDeletedById_eq_some {id : UUID} :
    s.findDeletedById id = some a ↔ a ∈ s.accounts ∧ a.id = id ∧ a.deleted = true := by
  rw [findDeletedById, Option.filter_eq_some_iff, Table.find?_eq_some, and_assoc]

theorem customer_eq_ok {id : UUID} : s.customer id = .ok a ↔
    a ∈ s.accounts ∧ a.id = id ∧ a.deleted = false ∧ a.role = .customer := by
  rw [customer, orFail_eq_ok, Option.filter_eq_some_iff, live_eq_some]
  simp [and_assoc]

theorem findByEmail_mem {email : String} (h : s.findByEmail email = some a) : a ∈ s.accounts ∧
    a.deleted = false := by
  have hmem := List.mem_of_find?_eq_some h
  have hfound := List.find?_some h
  simp only [Bool.decide_and, Bool.and_eq_true, decide_eq_true_eq] at hfound
  exact ⟨hmem, hfound.2⟩

theorem requireDeactivation_eq_ok {actor : AuthenticatedUser} {u : Unit}
    (h : requireDeactivation actor a = .ok u) : actor.id ≠ a.id ∧ governs actor a.role = true := by
  obtain ⟨_, hself, h⟩ := bind_eq_ok.1 h
  exact ⟨check_eq_ok.1 hself, check_eq_ok.1 h⟩

/-! ### Transactions under locks -/

theorem createCustomer_good (hs : s.Sound seed) {actor : AuthenticatedUser} {id : UUID}
    {email passwordHash : String} {draws : List String} {now : Instant} (hactor : onboards actor = true)
    (h : s.createCustomer actor id email passwordHash draws now = some s') : s'.Sound seed ∧ s.Later s' := by
  obtain ⟨s₁, hinsert, h⟩ := Option.bind_eq_some_iff.1 h
  obtain ⟨code, -, h⟩ := Option.bind_eq_some_iff.1 h
  obtain ⟨tokens, htokens, h⟩ := Option.bind_eq_some_iff.1 h
  cases h
  unfold insertAccount at hinsert
  split at hinsert
  · cases hinsert
  obtain ⟨accounts, haccounts, rfl⟩ := Option.map_eq_some_iff.1 hinsert
  dsimp only
  rw [List.append_nil]
  refine hs.insert_begins haccounts (if_pos hactor) rfl fun t ht => ?_
  rcases (Table.mem_insert htokens).1 ht with ht | rfl
  · exact .inl ht
  · exact .inr ⟨actor, now, rfl, rfl⟩

theorem updateCustomer_good (hs : s.Sound seed) {actor : AuthenticatedUser} {id : UUID} {version : ℕ}
    {email : String} (h : s.updateCustomer actor id version email = .ok (some s')) :
    s'.Sound seed ∧ s.Later s' := by
  obtain ⟨_, hactor, h⟩ := bind_eq_ok.1 h
  obtain ⟨a, hcustomer, h⟩ := bind_eq_ok.1 h
  obtain ⟨_, -, h⟩ := bind_eq_ok.1 h
  obtain ⟨_, -, hsave⟩ := bind_eq_ok.1 h
  obtain ⟨ha, rfl, hdeleted, hrole⟩ := customer_eq_ok.1 hcustomer
  refine saveAccount_good (Except.ok.inj hsave) hs (.of_mem ha) rfl rfl ?_ rfl fun _ _ _ he => by cases he
  simp [Account.standing, Standing.next, hrole, hdeleted, check_eq_ok.1 hactor]

theorem deactivateCustomer_good (hs : s.Sound seed) {actor : AuthenticatedUser} {id : UUID} {now : Instant}
    (h : s.deactivateCustomer actor id now = .ok (some s')) : s'.Sound seed ∧ s.Later s' := by
  obtain ⟨_, hactor, h⟩ := bind_eq_ok.1 h
  obtain ⟨a, hcustomer, h⟩ := bind_eq_ok.1 h
  obtain ⟨ha, rfl, hdeleted, hrole⟩ := customer_eq_ok.1 hcustomer
  split at h
  · rename_i hactive
    obtain ⟨s₁, hsave, rfl⟩ := Option.map_eq_some_iff.1 (Except.ok.inj h)
    obtain ⟨hs₁, hlater⟩ := saveAccount_good hsave hs (.of_mem ha) rfl rfl
      (by simp [Account.standing, Standing.next, hrole, hdeleted, hactive, check_eq_ok.1 hactor]) rfl
      fun _ _ _ he => by cases he
    exact ⟨consume_sound hs₁ _ _, ⟨hlater.accounts, hlater.journal⟩⟩
  · cases h
    exact ⟨hs, Std.Refl.refl (r := Later) s⟩

theorem activate_good (hs : s.Sound seed) {email tokenHash passwordHash : String} {locked now : Instant}
    (h : s.activate email tokenHash passwordHash locked now = .ok (some s')) :
    s'.Sound seed ∧ s.Later s' := by
  obtain ⟨a, haccount, h⟩ := bind_eq_ok.1 h
  obtain ⟨token, htoken, h⟩ := bind_eq_ok.1 h
  obtain ⟨_, hnow, h⟩ := bind_eq_ok.1 h
  have hnow := check_eq_ok.1 hnow
  obtain ⟨hfound, hopen⟩ := Option.filter_eq_some_iff.1 (orFail_eq_ok.1 haccount)
  obtain ⟨ha, hdeleted⟩ := findByEmail_mem hfound
  obtain ⟨hrole, hactive, hmust⟩ := of_decide_eq_true hopen
  obtain ⟨hunconsumed, -⟩ := Option.filter_eq_some_iff.1 (orFail_eq_ok.1 htoken)
  obtain ⟨hhis, -⟩ := Option.filter_eq_some_iff.1 hunconsumed
  obtain ⟨hstored, huser⟩ := Option.filter_eq_some_iff.1 hhis
  have huser : token.userId = a.id := of_decide_eq_true huser
  obtain ⟨hmem, rfl⟩ := Table.find?_eq_some.1 hstored
  obtain ⟨issuedAt, hissued, hexpires⟩ := hs.issued token hmem
  rw [huser] at hissued
  rw [hexpires] at hnow
  obtain ⟨s₁, hsave, rfl⟩ := Option.map_eq_some_iff.1 (Except.ok.inj h)
  obtain ⟨hs₁, hlater⟩ := saveAccount_good hsave hs (.of_mem ha) rfl rfl
    (by simp [Account.standing, Standing.next, hrole, hdeleted, hactive, hmust]) rfl fun id h t he => by
      cases he
      exact ⟨issuedAt, hissued, hnow⟩
  exact ⟨consume_sound hs₁ _ _, ⟨hlater.accounts, hlater.journal⟩⟩

end Registry

/-! ### The transactions are good -/

section code

variable {s : Registry} {seed : UUID → Option Standing}

/-- What the transactions keep. -/
abbrev Kept (seed : UUID → Option Standing) (t : Transaction Registry) (view : Registry) : Prop :=
  t.Good (fun _ _ => True) (Registry.Sound seed) Registry.Later view

theorem saveAccount_kept {a a' : Account} {e : Entry} (ha : a ∈ s.accounts) (hid : a'.id = a.id)
    (hversion : a'.version = a.version) (hnext : a.standing.next e = some a'.standing)
    (haccount : e.account = a.id) (hactivated : ∀ id h now, e ≠ .activated id h now) :
    Kept seed (.write (·.saveAccount a a' e) .done) s := by
  intro now s' hs hlater _ h
  obtain ⟨hs', hnext'⟩ := Registry.saveAccount_good h hs (hlater.copy ha) hid hversion hnext haccount
    fun id h t he => absurd he (hactivated id h t)
  exact ⟨hs', hnext', trivial⟩

theorem lockedWrite_kept {f : Registry → Except Failure (Option Registry)}
    (hf : ∀ s s', s.Sound seed → f s = .ok (some s') → s'.Sound seed ∧
      s.Later s') : Kept seed (lockedWrite f) s := by
  intro now s' hs _ _ h
  dsimp only at h
  cases hok : f now with
  | error e =>
    rw [hok] at h
    cases h
  | ok o =>
    rw [hok] at h
    obtain rfl : o = some s' := h
    obtain ⟨hs', hnext⟩ := hf now s' hs hok
    exact ⟨hs', hnext, trivial⟩

theorem accountCode_kept (call : AccountCall) (s : Registry) (seed : UUID → Option Standing) :
    Kept seed (accountCode call) s := by
  cases call with
  | provision id email passwordHash =>
    intro now hs _
    dsimp only
    split_ifs with hthere
    · trivial
    intro now' s' hs' _ _ hwrite
    have hno : Unowned seed := by
      by_contra hno
      obtain ⟨a, ha, howner⟩ := hs.owned hno
      exact hthere (.inl (List.any_eq_true.2 ⟨a, ha, decide_eq_true howner⟩))
    dsimp only [Registry.insertAccount] at hwrite
    split at hwrite
    · cases hwrite
    obtain ⟨accounts, hinsert, rfl⟩ := Option.map_eq_some_iff.1 hwrite
    obtain ⟨hsound, hnext⟩ :=
      hs'.insert hinsert (.inr ⟨hno, rfl, rfl⟩) (by simp) (fun t ht => .inl ht) (by simp)
    exact ⟨hsound, hnext, trivial⟩
  | createUser actor id email passwordHash role =>
    refine .attempt fun read _ _ _ h => ?_
    obtain ⟨_, hmanagement, h⟩ := bind_eq_ok.1 h
    obtain ⟨_, hcreatable, -⟩ := bind_eq_ok.1 h
    intro now s' hs _ _ hwrite
    dsimp only [Registry.insertAccount] at hwrite
    split at hwrite
    · cases hwrite
    obtain ⟨accounts, hinsert, rfl⟩ := Option.map_eq_some_iff.1 hwrite
    have hbegins : (Entry.userCreated actor id role).begins = some ⟨role, true, false, false⟩ :=
      if_pos ⟨check_eq_ok.1 hmanagement, check_eq_ok.1 hcreatable⟩
    obtain ⟨hs', hnext⟩ := hs.insert_begins hinsert hbegins rfl fun t ht => .inl ht
    exact ⟨hs', hnext, trivial⟩
  | deactivateUser actor id =>
    refine .attempt fun read a _ _ h => ?_
    obtain ⟨_, -, h⟩ := bind_eq_ok.1 h
    obtain ⟨b, hb, h⟩ := bind_eq_ok.1 h
    obtain ⟨_, hpolicy, h⟩ := bind_eq_ok.1 h
    cases h
    obtain ⟨ha, rfl, hdeleted⟩ := Registry.live_eq_some.1 (orFail_eq_ok.1 hb)
    obtain ⟨hself, hgoverns⟩ := Registry.requireDeactivation_eq_ok hpolicy
    split
    · rename_i hactive
      refine saveAccount_kept ha rfl rfl ?_ rfl fun _ _ _ he => by cases he
      simp [Account.standing, Standing.next, hself, hgoverns, hactive, hdeleted]
    · trivial
  | deleteUser actor id =>
    refine .attempt fun read a _ _ h => ?_
    obtain ⟨b, hb, h⟩ := bind_eq_ok.1 h
    obtain ⟨_, hpolicy, h⟩ := bind_eq_ok.1 h
    cases h
    obtain ⟨ha, rfl, hdeleted⟩ := Registry.live_eq_some.1 (orFail_eq_ok.1 hb)
    obtain ⟨hself, hgoverns⟩ := Registry.requireDeactivation_eq_ok hpolicy
    refine saveAccount_kept ha rfl rfl ?_ rfl fun _ _ _ he => by cases he
    simp [Account.standing, Standing.next, hself, hgoverns, hdeleted]
  | restoreUser actor id =>
    refine .attempt fun read a _ _ h => ?_
    obtain ⟨b, hb, h⟩ := bind_eq_ok.1 h
    obtain ⟨_, hpolicy, h⟩ := bind_eq_ok.1 h
    obtain ⟨_, -, h⟩ := bind_eq_ok.1 h
    cases h
    obtain ⟨ha, rfl, hdeleted⟩ := Registry.findDeletedById_eq_some.1 (orFail_eq_ok.1 hb)
    obtain ⟨hself, hgoverns⟩ := Registry.requireDeactivation_eq_ok hpolicy
    refine saveAccount_kept ha rfl rfl ?_ rfl fun _ _ _ he => by cases he
    simp [Account.standing, Standing.next, hself, hgoverns, hdeleted]
  | changePassword id isCurrent isNew passwordHash =>
    refine .attempt fun read a hs _ h => ?_
    obtain ⟨_, hsigned, h⟩ := bind_eq_ok.1 h
    obtain ⟨b, hb, h⟩ := bind_eq_ok.1 h
    obtain ⟨_, -, h⟩ := bind_eq_ok.1 h
    obtain ⟨_, -, h⟩ := bind_eq_ok.1 h
    cases h
    obtain ⟨hlive, hactive⟩ := Option.filter_eq_some_iff.1 (orFail_eq_ok.1 hb)
    obtain ⟨ha, rfl, hdeleted⟩ := Registry.live_eq_some.1 hlive
    have hloggedIn : .loggedIn a.id ∈ read.journalOf a.id :=
      List.mem_filter.2 ⟨of_decide_eq_true (check_eq_ok.1 hsigned), by simp [Entry.account]⟩
    have hmust := (hs.told a ha).mem_loggedIn hloggedIn
    refine saveAccount_kept ha rfl rfl ?_ rfl fun _ _ _ he => by cases he
    simp [Account.standing, Standing.next, hactive, hdeleted, show a.mustChangePassword = false from hmust]
  | createCustomer actor id email passwordHash draws now =>
    refine .attempt fun read _ _ _ h => ?_
    obtain ⟨_, hactor, -⟩ := bind_eq_ok.1 h
    intro now' s' hs _ _ hwrite
    obtain ⟨hs', hnext⟩ := Registry.createCustomer_good hs (check_eq_ok.1 hactor) hwrite
    exact ⟨hs', hnext, trivial⟩
  | updateCustomer actor id version email =>
    exact lockedWrite_kept fun s s' hs h => Registry.updateCustomer_good hs h
  | deactivateCustomer actor id now =>
    exact lockedWrite_kept fun s s' hs h => Registry.deactivateCustomer_good hs h
  | activate email tokenHash passwordHash locked now =>
    exact lockedWrite_kept fun s s' hs h => Registry.activate_good hs h
  | cleanup consumed expired now =>
    intro now' s' hs _ _ hwrite
    cases hwrite
    exact ⟨Registry.cleanup_sound hs _ _ _, ⟨fun a ha => ⟨a, ha, .refl a⟩, List.prefix_rfl⟩, trivial⟩
  | login email isPassword =>
    refine .attempt fun read a _ _ h => ?_
    obtain ⟨b, hb, h⟩ := bind_eq_ok.1 h
    obtain ⟨_, -, h⟩ := bind_eq_ok.1 h
    cases h
    obtain ⟨hfound, hopen⟩ := Option.filter_eq_some_iff.1 (orFail_eq_ok.1 hb)
    obtain ⟨ha, hdeleted⟩ := Registry.findByEmail_mem hfound
    obtain ⟨-, hmust⟩ := of_decide_eq_true hopen
    intro now s' hs hlater _ hwrite
    cases hwrite
    -- the account may have been deactivated since it was read
    obtain ⟨a', ha', hlater'⟩ := hlater.accounts a ha
    have hmust' : a'.mustChangePassword = false := by
      cases hm : a'.mustChangePassword with
      | false => rfl
      | true => exact absurd (hlater'.standing.mustChangePassword hm) (by simp [Account.standing, hmust])
    have hstanding : a'.standing.next (.loggedIn a.id) = some a'.standing := by
      simp [Account.standing, Standing.next, hmust']
    obtain ⟨hs', hnext⟩ :=
      hs.write ha' rfl (.inr rfl) hstanding hlater'.id.symm (fun x => Table.mem_iff_of_mem ha')
        fun _ _ _ he => by cases he
    exact ⟨hs', hnext, trivial⟩

end code

/-! ### Every run -/

/-- Accounts of which nothing is written down yet; nobody is signed in, and no code was issued. -/
structure Registry.New (s : Registry) : Prop where
  tokens : s.tokens = .empty
  journal : s.journal = []

/-- How the accounts stand at first. -/
def Registry.seed (s : Registry) (id : UUID) : Option Standing := (s.accounts.find? id).map Account.standing

theorem Registry.New.sound {s : Registry} (h : s.New) : s.Sound s.seed where
  told a ha := by
    have hseed : s.seed a.id = some a.standing := by
      rw [seed, Table.find?_eq_some.2 ⟨ha, rfl⟩, Option.map_some]
    have hjournal : s.journalOf a.id = [] := by
      rw [journalOf, h.journal, List.filter_nil]
    left
    rw [hseed, hjournal]
    rfl
  known e he := by
    rw [h.journal] at he
    cases he
  seeded id hseed := by
    obtain ⟨st, hst⟩ := Option.ne_none_iff_exists'.1 hseed
    obtain ⟨a, ha, -⟩ := Option.map_eq_some_iff.1 hst
    exact ⟨a, Table.find?_eq_some.1 ha⟩
  issued t ht := by
    rw [h.tokens] at ht
    exact absurd ht Table.not_mem_empty
  activated id code now hmem := by
    rw [h.journal] at hmem
    cases hmem

section run

variable {b b' b'' : Board AccountCall Registry}

theorem sound_of_run (hidle : ∀ n, b.active n = none) (hnew : b.store.New)
    (hrun : Board.Run accountCode (fun _ _ _ => True) b b') :
    b'.Sound (fun _ _ _ => True) (Registry.Sound b.store.seed) Registry.Later :=
  hrun.sound (fun call s _ => accountCode_kept call s _) (Board.sound_of_idle hidle hnew.sound)

/-- In every run the journal tells how each account has come to stand as it does: from how it stood at
first, from the entry that it begins with or from its provisioning, each entry leads on by the rules of the
policy, with an actor who was allowed to. -/
theorem accounts_told (hidle : ∀ n, b.active n = none) (hnew : b.store.New)
    (hrun : Board.Run accountCode (fun _ _ _ => True) b b') :
    ∀ a ∈ b'.store.accounts, Told b.store.seed a.id (b'.store.journalOf a.id) a.standing :=
  (sound_of_run hidle hnew hrun).store.told

/-- However transactions interleave, no account is lost, none changes its role, what was deactivated stays
so, who has set a password never has to do so again, and nothing reaches an owner. An owner was there at
first, and stands as he stood, or he was provisioned where none was there. -/
theorem accounts_kept (hidle : ∀ n, b.active n = none) (hnew : b.store.New)
    (hrun : Board.Run accountCode (fun _ _ _ => True) b b')
    (hrun' : Board.Run accountCode (fun _ _ _ => True) b' b'') :
    (∀ a ∈ b'.store.accounts, ∃ a' ∈ b''.store.accounts, a.Later a') ∧
      ∀ a' ∈ b''.store.accounts, a'.role = .owner →
        (∃ a ∈ b.store.accounts, a.id = a'.id ∧ a.standing = a'.standing) ∨
          (∀ a ∈ b.store.accounts, a.role ≠ .owner) ∧ a'.standing = .provisioned := by
  have hsound := sound_of_run hidle hnew hrun
  have hlater := hrun'.later (fun call s _ => accountCode_kept call s _) hsound
  have htold := (hrun'.sound (fun call s _ => accountCode_kept call s _) hsound).store.told
  refine ⟨hlater.accounts, fun a' ha' howner => ?_⟩
  rcases (htold a' ha').owner howner with hseed | ⟨hno, hstanding⟩
  · obtain ⟨a, hfind, hstanding⟩ := Option.map_eq_some_iff.1 hseed
    obtain ⟨ha, hid⟩ := Table.find?_eq_some.1 hfind
    exact .inl ⟨a, ha, hid, hstanding⟩
  · refine .inr ⟨fun a ha => hno a.id a.standing ?_, hstanding⟩
    rw [Registry.seed, Table.find?_eq_some.2 ⟨ha, rfl⟩, Option.map_some]
    rfl

/-! ### How a customer gets in -/

def Entry.isActivation : Entry → Bool
  | .activated _ _ _ => true
  | _ => false

/-- At most one activation, in time and with the code that was issued; who logs in or changes the
password has gone through it. -/
structure Admission (id : UUID) (code : String) (issuedAt : Instant) (es : List Entry) : Prop where
  once : es.countP Entry.isActivation ≤ 1
  issued : ∀ h now, .activated id h now ∈ es → h = code ∧ now < issuedAt.plusSeconds activationHour
  first : ∀ before after e, es = before ++ e :: after → e = .loggedIn id ∨ e = .passwordChanged id →
    ∃ now, .activated id code now ∈ before

theorem Standing.next_activation {st st' : Standing} {e : Entry} (h : st.next e = some st') :
    if e.isActivation then st.mustChangePassword = true ∧ st'.mustChangePassword = false
    else st'.mustChangePassword = st.mustChangePassword := by
  cases e <;> unfold Standing.next at h <;> dsimp only at h
  case userCreated => cases h
  case customerCreated => cases h
  all_goals
    split_ifs at h with hif
    cases h
    simp_all [Entry.isActivation]

/-- Each activation takes the password away that somebody else had set. -/
theorem countP_activation {st st' : Standing} {es : List Entry} (h : es.foldlM Standing.next st = some st') :
    es.countP Entry.isActivation + st'.mustChangePassword.toNat = st.mustChangePassword.toNat := by
  induction es generalizing st with
  | nil =>
    cases h
    simp
  | cons e es ih =>
    rw [List.foldlM_cons] at h
    obtain ⟨st₁, hnext, hrest⟩ := Option.bind_eq_some_iff.1 h
    have hmust := Standing.next_activation hnext
    have hcount := ih hrest
    rw [List.countP_cons]
    split_ifs at hmust ⊢ with he
    · rw [hmust.2, Bool.toNat_false] at hcount
      rw [hmust.1, Bool.toNat_true]
      omega
    · rw [hmust] at hcount
      omega

theorem customerCreated_not_mem {st st' : Standing} {es : List Entry} {actor : AuthenticatedUser}
    {id : UUID} {code : String} {issuedAt : Instant} (h : es.foldlM Standing.next st = some st') :
    .customerCreated actor id code issuedAt ∉ es := by
  intro hmem
  obtain ⟨before, after, rfl⟩ := List.append_of_mem hmem
  rw [List.foldlM_append] at h
  obtain ⟨st₁, -, hrest⟩ := Option.bind_eq_some_iff.1 h
  rw [List.foldlM_cons] at hrest
  obtain ⟨st₂, hnext, -⟩ := Option.bind_eq_some_iff.1 hrest
  cases hnext

/-- Whom the staff brings in: one code is issued, and the account opens only by an activation with it, once
and within the hour; there is no login and no other password before. -/
theorem activation_once (hidle : ∀ n, b.active n = none) (hnew : b.store.New)
    (hrun : Board.Run accountCode (fun _ _ _ => True) b b') :
    ∀ a ∈ b'.store.accounts, a.role = .customer → b.store.seed a.id = none → ∃ actor code issuedAt es,
      b'.store.journalOf a.id = .customerCreated actor a.id code issuedAt :: es ∧
      Admission a.id code issuedAt es := by
  intro a ha hrole hseed
  have hsound := (sound_of_run hidle hnew hrun).store
  have htold : retrace none (b'.store.journalOf a.id) = some a.standing := by
    rcases hsound.told a ha with htold | ⟨-, -, htold⟩
    · rwa [hseed] at htold
    · have howner := (foldlM_next_later htold).role.symm.trans hrole
      cases howner
  have hof : ∀ e ∈ b'.store.journalOf a.id, e ∈ b'.store.journal ∧ e.account = a.id := by
    intro e he
    simpa [Registry.journalOf] using he
  cases hes : b'.store.journalOf a.id with
  | nil =>
    rw [hes] at htold
    cases htold
  | cons e es =>
    rw [hes] at htold hof
    obtain ⟨st, hbegins, hrest⟩ := Option.bind_eq_some_iff.1 htold
    have hstrole : st.role = .customer := (foldlM_next_later hrest).role.symm.trans hrole
    obtain ⟨-, hid⟩ := hof e List.mem_cons_self
    cases e with
    | userCreated actor id role =>
      obtain ⟨⟨-, hcreatable⟩, hst⟩ := Option.ite_none_right_eq_some.1 hbegins
      cases hst
      obtain rfl : role = .customer := hstrole
      unfold creatable at hcreatable
      split at hcreatable <;> simp at hcreatable
    | customerCreated actor id code issuedAt =>
      obtain ⟨-, hst⟩ := Option.ite_none_right_eq_some.1 hbegins
      cases hst
      obtain rfl : id = a.id := hid
      have hissued : ∀ h now, .activated a.id h now ∈ es → h = code ∧
          now < issuedAt.plusSeconds activationHour := by
        intro h now hmem
        obtain ⟨issuedAt', ⟨actor', hcreated⟩, hlt⟩ :=
          hsound.activated a.id h now (hof _ (List.mem_cons_of_mem _ hmem)).1
        have hhis : .customerCreated actor' a.id h issuedAt' ∈ b'.store.journalOf a.id :=
          List.mem_filter.2 ⟨hcreated, by simp [Entry.account]⟩
        rw [hes] at hhis
        rcases List.mem_cons.1 hhis with heq | hhis
        · cases heq
          exact ⟨rfl, hlt⟩
        · exact absurd hhis (customerCreated_not_mem hrest)
      refine ⟨actor, code, issuedAt, es, rfl, ?_, hissued, ?_⟩
      · have hcount := countP_activation hrest
        exact le_of_add_le_left hcount.le
      · rintro before after e rfl he
        rw [List.foldlM_append] at hrest
        obtain ⟨st₁, hbefore, hrest⟩ := Option.bind_eq_some_iff.1 hrest
        rw [List.foldlM_cons] at hrest
        obtain ⟨st₂, hnext, -⟩ := Option.bind_eq_some_iff.1 hrest
        -- the entry was allowed, so the password is the customer's own
        have hmust : st₁.mustChangePassword = false := by
          by_contra hmust
          rcases he with rfl | rfl <;> simp [Standing.next, hmust] at hnext
        have hcount := countP_activation hbefore
        rw [hmust] at hcount
        simp at hcount
        obtain ⟨e', he', hactivation⟩ := List.countP_pos_iff.1 (hcount ▸ Nat.one_pos)
        cases e' with
        | activated id h now =>
          obtain rfl : id = a.id := (hof _ (List.mem_cons_of_mem _ (List.mem_append_left _ he'))).2
          obtain ⟨rfl, -⟩ := hissued h now (List.mem_append_left _ he')
          exact ⟨now, he'⟩
        | _ => cases hactivation
    | _ => cases hbegins

end run

/-! ### A customer is brought in -/

namespace Reception

def registry : Registry :=
  { accounts := ⟨[⟨1, "owner@gm", "o", .owner, true, false, false, 0⟩], by simp⟩
    tokens := .empty
    journal := [] }

def idle : Board AccountCall Registry := ⟨registry, fun _ => none⟩

def joining : List (Act AccountCall) :=
  [.start 0 (.createCustomer ⟨1, .owner⟩ 5 "ana@gm" "drawn" ["code"] 0), .turn 0, .turn 0,
    .start 1 (.activate "ana@gm" "code" "chosen" 10 20), .turn 1]

def entering : List (Act AccountCall) := [.start 2 (.login "ana@gm" fun h => h = "chosen"), .turn 2, .turn 2]

def ana : Account := ⟨5, "ana@gm", "chosen", .customer, true, false, false, 1⟩

theorem registry_new : registry.New := ⟨rfl, rfl⟩

theorem joined : ∃ b b' : Board AccountCall Registry, ana ∈ b.store.accounts.rows ∧
    b'.store.journalOf 5 = [.customerCreated ⟨1, .owner⟩ 5 "code" 0, .activated 5 "code" 20, .loggedIn 5] ∧
    Board.Run accountCode (fun _ _ _ => True) idle b ∧ Board.Run accountCode (fun _ _ _ => True) b b' :=
  ⟨_, _, List.mem_cons_of_mem _ List.mem_cons_self, rfl,
    .of_run accountCode (.refl idle) joining (Board.meetsAll_true accountCode ..) rfl,
    .of_run accountCode (.refl _) entering (Board.meetsAll_true accountCode ..) rfl⟩

theorem accounts_told_joined : ∃ b : Board AccountCall Registry, ana ∈ b.store.accounts.rows ∧
    Told registry.seed 5 (b.store.journalOf 5) ana.standing := by
  obtain ⟨b, b', hana, -, hrun, -⟩ := joined
  exact ⟨b, hana, accounts_told (fun _ => rfl) registry_new hrun ana hana⟩

theorem accounts_kept_joined : ∃ b' : Board AccountCall Registry, (∃ a' ∈ b'.store.accounts, ana.Later a') ∧
    ∀ a' ∈ b'.store.accounts, a'.role = .owner → a'.id = 1 := by
  obtain ⟨b, b', hana, -, hrun, hrun'⟩ := joined
  obtain ⟨hlater, howner⟩ := accounts_kept (fun _ => rfl) registry_new hrun hrun'
  refine ⟨b', hlater ana hana, fun a' ha' hrole => ?_⟩
  rcases howner a' ha' hrole with ⟨a, ha, hid, -⟩ | ⟨hno, -⟩
  · obtain rfl := List.mem_singleton.1 ha
    exact hid.symm
  · exact absurd rfl (hno _ (List.mem_singleton.2 rfl))

theorem activation_once_joined : ∃ b : Board AccountCall Registry, ∃ actor code issuedAt es,
    b.store.journalOf 5 = .customerCreated actor 5 code issuedAt :: es ∧ Admission 5 code issuedAt es := by
  obtain ⟨b, b', hana, -, hrun, -⟩ := joined
  exact ⟨b, activation_once (fun _ => rfl) registry_new hrun ana hana rfl rfl⟩

end Reception

end GManager.Accounts
