import GManager.DocumentStore
import GManager.PartialRuns

/-!
# Live documents and the clean-up

What `cleanup` deletes from the object store is deleted at once, while its rows were selected without a lock.
Every version of a live document keeps its object as long as no object of a live document is deleted and no
document is restored after objects of it were. The code excludes neither: `cleanup` never takes the lock that
`delete`, `restore` and `addVersion` take.
-/

namespace GManager.Documents

namespace World

variable {w w' : World} {n : ℕ} {key : String}

/-- The bytes that were uploaded are in the object store. -/
def Stored (w : World) (key : String) : Prop :=
  ∃ bytes, w.uploads key = some bytes ∧ w.objects key = some bytes

/-- Every version of a live document has its object. -/
def Intact (w : World) : Prop :=
  ∀ v ∈ w.versions, ∀ d ∈ w.documents, d.id = v.documentId → d.deletedAt = none → w.Stored v.objectKey

/-- No document is restored that lost an object. -/
def Restorable (w : World) : Option Tx → Prop
  | some (.restoring d) =>
    d ∈ w.documents.rows → d.deletedAt ≠ none → ∀ v ∈ versionsOf w.versions d.id, v.objectKey ∉ w.cleaned
  | _ => True

/-- No object of a live document is deleted. -/
def Erasable (w : World) : Option Tx → Prop
  | some (.cleaning c) => ∀ d ∈ w.documents.rows, d.id = c.current → d.deletedAt ≠ none
  | _ => True

def Careful (w : World) : Event → Prop
  | .commit n => w.Restorable (w.active n)
  | .deleteObject n => w.Erasable (w.active n)
  | _ => True

/-- Every step of the run is careful. -/
abbrev CarefulRun (w : World) (es : List Event) : Prop := RunMeets step Careful w es

/-! ### The invariant -/

/-- The key of a version that is being added. -/
def Private (w : World) (key : String) : Prop :=
  ∃ n a, w.active n = some (.adding a) ∧ a.version.objectKey = key

/-- A key of the document that is not being added. -/
def Public (w : World) (key : String) (id : UUID) : Prop := w.owner key = some id ∧ ¬ w.Private key

structure Ready (w : World) (a : Adding) : Prop where
  owner : w.owner a.version.objectKey = some a.version.documentId
  document : a.version.documentId = a.document.id
  live : a.document.deletedAt = none
  kept : a.version.objectKey ∉ w.cleaned
  stored : a.stored → w.Stored a.version.objectKey

structure Shown (w : World) (c : Cleaning) : Prop where
  keys : ∀ key ∈ c.keys, w.Public key c.current
  snapshot : ∀ t ∈ c.snapshot, ∀ v ∈ t, w.Public v.objectKey v.documentId

structure Inv (w : World) : Prop where
  rows : ∀ v ∈ w.versions, w.Public v.objectKey v.documentId
  documents : ∀ v ∈ w.versions, ∃ d ∈ w.documents, d.id = v.documentId
  stored : ∀ v ∈ w.versions, v.objectKey ∉ w.cleaned → w.Stored v.objectKey
  live : ∀ v ∈ w.versions, ∀ d ∈ w.documents, d.id = v.documentId → d.deletedAt = none →
    v.objectKey ∉ w.cleaned
  adding : ∀ n a, w.active n = some (.adding a) → w.Ready a
  apart : ∀ n m a b, w.active n = some (.adding a) → w.active m = some (.adding b) →
    a.version.objectKey = b.version.objectKey → n = m
  cleaning : ∀ n c, w.active n = some (.cleaning c) → w.Shown c
  cleaned : ∀ key ∈ w.cleaned, w.owner key ≠ none

theorem Inv.intact (h : w.Inv) : w.Intact :=
  fun v hv d hd hid hlive => h.stored v hv (h.live v hv d hd hid hlive)

theorem Inv.empty : Inv empty where
  rows := fun _ hv => absurd hv Table.not_mem_empty
  documents := fun _ hv => absurd hv Table.not_mem_empty
  stored := fun _ hv => absurd hv Table.not_mem_empty
  live := fun _ hv => absurd hv Table.not_mem_empty
  adding := fun _ _ ha => by cases ha
  apart := fun _ _ _ _ ha => by cases ha
  cleaning := fun _ _ hc => by cases hc
  cleaned := fun _ hkey => by cases hkey

/-! ### Transactions that begin and end -/

theorem active_set (w : World) (n m : ℕ) (tx : Option Tx) :
    (w.set n tx).active m = if m = n then tx else w.active m := by
  show Function.update w.active n tx m = _
  rw [Function.update_apply]

theorem active_set_self (w : World) (n : ℕ) (tx : Option Tx) : (w.set n tx).active n = tx := by
  rw [active_set, if_pos rfl]

theorem active_set_ne {m : ℕ} {tx : Option Tx} (h : m ≠ n) : (w.set n tx).active m = w.active m := by
  rw [active_set, if_neg h]

/-- What was being added under `n` may go on or end, and nothing else is begun. -/
def Continues (w : World) (n : ℕ) (tx : Option Tx) : Prop :=
  ∀ a, tx = some (.adding a) →
    ∃ b, w.active n = some (.adding b) ∧ b.version.objectKey = a.version.objectKey ∧ w.Ready a

theorem Private.of_set {tx : Option Tx} (hc : w.Continues n tx) (h : (w.set n tx).Private key) :
    w.Private key := by
  obtain ⟨m, a, ha, hkey⟩ := h
  by_cases hm : m = n
  · subst hm
    rw [active_set_self] at ha
    obtain ⟨b, hb, hbkey, -⟩ := hc a ha
    exact ⟨m, b, hb, hbkey.trans hkey⟩
  · rw [active_set_ne hm] at ha
    exact ⟨m, a, ha, hkey⟩

theorem Public.set {tx : Option Tx} (hc : w.Continues n tx) {id : UUID} (h : w.Public key id) :
    (w.set n tx).Public key id :=
  ⟨h.1, fun hp => h.2 (hp.of_set hc)⟩

theorem Ready.set {tx : Option Tx} {a : Adding} (h : w.Ready a) : (w.set n tx).Ready a :=
  ⟨h.owner, h.document, h.live, h.kept, h.stored⟩

theorem Shown.set {tx : Option Tx} (hc : w.Continues n tx) {c : Cleaning} (h : w.Shown c) :
    (w.set n tx).Shown c :=
  ⟨fun key hkey => (h.keys key hkey).set hc, fun t ht v hv => (h.snapshot t ht v hv).set hc⟩

theorem Inv.set {tx : Option Tx} (h : w.Inv) (hc : w.Continues n tx)
    (hshown : ∀ c, tx = some (.cleaning c) → w.Shown c) : (w.set n tx).Inv where
  rows := fun v hv => (h.rows v hv).set hc
  documents := h.documents
  stored := h.stored
  live := h.live
  adding := by
    intro m a ha
    by_cases hm : m = n
    · subst hm
      rw [active_set_self] at ha
      obtain ⟨-, -, -, hready⟩ := hc a ha
      exact hready.set
    · rw [active_set_ne hm] at ha
      exact (h.adding m a ha).set
  apart := by
    -- A transaction that goes on keeps its key.
    have hold : ∀ m a, (w.set n tx).active m = some (.adding a) →
        ∃ b, w.active m = some (.adding b) ∧ b.version.objectKey = a.version.objectKey := by
      intro m a ha
      by_cases hm : m = n
      · subst hm
        rw [active_set_self] at ha
        obtain ⟨b, hb, hkey, -⟩ := hc a ha
        exact ⟨b, hb, hkey⟩
      · rw [active_set_ne hm] at ha
        exact ⟨a, ha, rfl⟩
    intro m k a b ha hb hkey
    obtain ⟨a', ha', hakey⟩ := hold m a ha
    obtain ⟨b', hb', hbkey⟩ := hold k b hb
    exact h.apart m k a' b' ha' hb' (hakey.trans (hkey.trans hbkey.symm))
  cleaning := by
    intro m c hactive
    by_cases hm : m = n
    · subst hm
      rw [active_set_self] at hactive
      exact (hshown c hactive).set hc
    · rw [active_set_ne hm] at hactive
      exact (h.cleaning m c hactive).set hc
  cleaned := h.cleaned

/-- A transaction that adds nothing. -/
theorem Inv.set_other {tx : Option Tx} (h : w.Inv) (hadd : ∀ a, tx ≠ some (.adding a))
    (hshown : ∀ c, tx = some (.cleaning c) → w.Shown c) : (w.set n tx).Inv :=
  h.set (fun a ha => absurd ha (hadd a)) hshown

theorem Inv.set_none (h : w.Inv) : (w.set n none).Inv :=
  h.set_other (fun _ ha => by cases ha) fun _ hc => by cases hc

theorem begin_eq_some {tx : Tx} (h : w.begin n tx = some w') : w.active n = none ∧
    w' = w.set n (some tx) := by
  unfold begin at h
  split at h
  · exact ⟨Option.isNone_iff_eq_none.1 ‹_›, (Option.some.inj h).symm⟩
  · cases h

/-- A new key is not one of a row, a clean-up or another transaction. -/
theorem Inv.beginAdding {a : Adding} (h : w.Inv) (hdoc : a.version.documentId = a.document.id)
    (hlive : a.document.deletedAt = none) (hstored : a.stored = false)
    (hs : w.beginAdding n a = some w') : w'.Inv := by
  unfold World.beginAdding at hs
  split at hs
  swap
  · cases hs
  rename_i hnew
  obtain ⟨hidle, rfl⟩ := begin_eq_some hs
  have hne : ∀ {key id}, w.owner key = some id → key ≠ a.version.objectKey := by
    rintro key id hkey rfl
    rw [hnew] at hkey
    cases hkey
  have howner : ∀ {key id}, w.owner key = some id →
      Function.update w.owner a.version.objectKey (some a.version.documentId) key = some id := fun hkey => by
    rw [Function.update_of_ne (hne hkey), hkey]
  have hactive : ∀ m tx, Function.update w.active n (some (.adding a)) m = some tx →
      (m = n ∧ tx = .adding a) ∨ (m ≠ n ∧ w.active m = some tx) := by
    intro m tx htx
    rw [Function.update_apply] at htx
    split at htx
    · exact .inl ⟨‹_›, (Option.some.inj htx).symm⟩
    · exact .inr ⟨‹_›, htx⟩
  have hpublic : ∀ {key id}, w.Public key id →
      (({ w with owner := Function.update w.owner a.version.objectKey (some a.version.documentId) } :
        World).set n (some (.adding a))).Public key id := by
    rintro key id ⟨hkey, hprivate⟩
    refine ⟨howner hkey, ?_⟩
    rintro ⟨m, b, hb, hbkey⟩
    rcases hactive m _ hb with ⟨-, heq⟩ | ⟨-, hb⟩
    · cases heq
      exact hne hkey hbkey.symm
    · exact hprivate ⟨m, b, hb, hbkey⟩
  refine ⟨fun v hv => hpublic (h.rows v hv), h.documents, h.stored, h.live, ?_, ?_, ?_, ?_⟩
  · intro m b hb
    rcases hactive m _ hb with ⟨-, heq⟩ | ⟨-, hb⟩
    · cases heq
      refine ⟨Function.update_self .., hdoc, hlive, fun hkey => h.cleaned _ hkey hnew, fun hs => ?_⟩
      rw [hstored] at hs
      cases hs
    · have hready := h.adding m b hb
      exact ⟨howner hready.owner, hready.document, hready.live, hready.kept, hready.stored⟩
  · intro m k b b' hb hb' hkey
    rcases hactive m _ hb with ⟨rfl, heq⟩ | ⟨-, hold⟩ <;> rcases hactive k _ hb' with ⟨rfl, heq'⟩ | ⟨-, hold'⟩
    · rfl
    · cases heq
      exact absurd hkey.symm (hne (h.adding k b' hold').owner)
    · cases heq'
      exact absurd hkey (hne (h.adding m b hold).owner)
    · exact h.apart m k b b' hold hold' hkey
  · intro m c hc
    rcases hactive m _ hc with ⟨-, heq⟩ | ⟨-, hc⟩
    · cases heq
    · have hshown := h.cleaning m c hc
      exact ⟨fun key hkey => hpublic (hshown.keys key hkey), fun t ht v hv =>
        hpublic (hshown.snapshot t ht v hv)⟩
  · intro key hkey
    obtain ⟨id, hid⟩ := Option.ne_none_iff_exists'.1 (h.cleaned key hkey)
    exact fun hnone => absurd ((howner hid).symm.trans hnone) (by simp)

/-! ### Objects -/

theorem Stored.update {key' : String} {o u : Option Bytes} (h : w.Stored key') (hne : key' ≠ key) :
    ({ w with
      objects := Function.update w.objects key o
      uploads := Function.update w.uploads key u } : World).Stored key' := by
  obtain ⟨bytes, hupload, hobject⟩ := h
  refine ⟨bytes, ?_, ?_⟩
  · rw [← hupload]
    exact Function.update_of_ne hne ..
  · rw [← hobject]
    exact Function.update_of_ne hne ..

/-- An object that no row names and no transaction counts on. -/
theorem Inv.update {o u : Option Bytes} (h : w.Inv) (hrows : ∀ v ∈ w.versions, v.objectKey ≠ key)
    (hadding : ∀ n a, w.active n = some (.adding a) → a.stored → a.version.objectKey ≠ key) :
    ({ w with
      objects := Function.update w.objects key o
      uploads := Function.update w.uploads key u } : World).Inv where
  rows := h.rows
  documents := h.documents
  stored := fun v hv hkey => (h.stored v hv hkey).update (hrows v hv)
  live := h.live
  adding := fun n a ha => by
    have hready := h.adding n a ha
    exact ⟨hready.owner, hready.document, hready.live, hready.kept,
      fun hs => (hready.stored hs).update (hadding n a ha hs)⟩
  apart := h.apart
  cleaning := fun n c hc => ⟨(h.cleaning n c hc).keys, (h.cleaning n c hc).snapshot⟩
  cleaned := h.cleaned

theorem erase_eq (w : World) (key : String) :
    w.erase key =
      { w with
        objects := Function.update w.objects key none
        uploads := Function.update w.uploads key (w.uploads key) } := by
  rw [Function.update_eq_self]
  rfl

/-- The key that is being added is not one of the rows. -/
theorem Inv.row_ne {a : Adding} (h : w.Inv) (ha : w.active n = some (.adding a)) {v : DocumentVersion}
    (hv : v ∈ w.versions) : v.objectKey ≠ a.version.objectKey := fun hkey =>
  (h.rows v hv).2 ⟨n, a, ha, hkey.symm⟩

theorem Inv.store {a : Adding} (h : w.Inv) (ha : w.active n = some (.adding a)) (hstored : a.stored = false) :
    ((w.store a.version.objectKey a.bytes).set n (some (.adding { a with stored := true }))).Inv := by
  have hstore : (w.store a.version.objectKey a.bytes).Inv := by
    refine h.update (fun v hv => h.row_ne ha hv) fun m b hb hs hkey => ?_
    obtain rfl := h.apart m n b a hb ha hkey
    rw [ha] at hb
    cases hb
    rw [hstored] at hs
    cases hs
  refine hstore.set ?_ fun _ hc => by cases hc
  intro b hb
  cases hb
  have hready := h.adding n a ha
  exact ⟨a, ha, rfl, hready.owner, hready.document, hready.live, hready.kept,
    fun _ => ⟨a.bytes, Function.update_self .., Function.update_self ..⟩⟩

theorem Inv.discard {a : Adding} (h : w.Inv) (ha : w.active n = some (.adding a)) :
    ((w.erase a.version.objectKey).set n none).Inv := by
  have hnone := h.set_none (n := n)
  have herase : ((w.set n none).erase a.version.objectKey).Inv := by
    rw [erase_eq]
    refine hnone.update (fun v hv => h.row_ne ha hv) fun m b hb _ hkey => ?_
    by_cases hm : m = n
    · subst hm
      rw [active_set_self] at hb
      cases hb
    · rw [active_set_ne hm] at hb
      exact hm (h.apart m n b a hb ha hkey)
  exact herase

/-- A clean-up deletes an object of a document that is not live. -/
theorem Inv.deleteObject {c : Cleaning} {keys : List String} (h : w.Inv)
    (hc : w.active n = some (.cleaning c)) (hkeys : c.keys = key :: keys)
    (hdead : ∀ d ∈ w.documents, d.id = c.current → d.deletedAt ≠ none) :
    ({ w.erase key with cleaned := key :: w.cleaned } : World).Inv := by
  have hpublic : w.Public key c.current := (h.cleaning n c hc).keys key (by simp [hkeys])
  have hstored : ∀ {key'}, w.Stored key' → key' ≠ key →
      ({ w.erase key with cleaned := key :: w.cleaned } : World).Stored key' := by
    rintro key' ⟨bytes, hupload, hobject⟩ hne
    exact ⟨bytes, hupload, (Function.update_of_ne hne ..).trans hobject⟩
  refine ⟨h.rows, h.documents, ?_, ?_, ?_, h.apart, ?_, ?_⟩
  · intro v hv hkey
    rw [List.mem_cons, not_or] at hkey
    exact hstored (h.stored v hv hkey.2) hkey.1
  · intro v hv d hd hid hlive hkey
    rcases List.mem_cons.1 hkey with hkey | hkey
    · have howner := (h.rows v hv).1
      rw [hkey, hpublic.1] at howner
      exact hdead d hd (hid.trans (Option.some.inj howner).symm) hlive
    · exact h.live v hv d hd hid hlive hkey
  · intro m a ha
    have hready := h.adding m a ha
    have hne : a.version.objectKey ≠ key := fun hkey => hpublic.2 ⟨m, a, ha, hkey⟩
    refine ⟨hready.owner, hready.document, hready.live, ?_, fun hs => hstored (hready.stored hs) hne⟩
    rw [List.mem_cons, not_or]
    exact ⟨hne, hready.kept⟩
  · exact fun m c hc => ⟨(h.cleaning m c hc).keys, (h.cleaning m c hc).snapshot⟩
  · intro key' hkey
    rcases List.mem_cons.1 hkey with rfl | hkey
    · exact fun hnone => absurd (hpublic.1.symm.trans hnone) (by simp)
    · exact h.cleaned key' hkey

/-! ### Commits -/

theorem saveAdding_eq_some {a : Adding} (h : w.saveAdding a = some w') :
    ∃ documents versions, w' = { w with documents, versions } ∧ w.versions.insert a.version = some versions ∧
      (∀ d, d ∈ documents ↔ d ∈ w.documents ∨ d = a.document) ∧
      (∀ d ∈ w.documents, d.id = a.document.id → d = a.document) := by
  unfold saveAdding at h
  obtain ⟨documents, hdocuments, h⟩ := Option.bind_eq_some_iff.1 h
  obtain ⟨versions, hversions, h⟩ := Option.bind_eq_some_iff.1 h
  split at h
  swap
  · cases h
  refine ⟨documents, versions, (Option.some.inj h).symm, hversions, ?_⟩
  unfold saveDocument at hdocuments
  split at hdocuments
  · refine ⟨fun d => Table.mem_insert hdocuments, fun d hd hid => ?_⟩
    exact absurd hid ((Table.insert_eq_some.1 hdocuments).1 d hd)
  · split at hdocuments
    · rename_i hmem
      cases hdocuments
      refine ⟨fun d => ?_, fun d hd hid => Table.eq_of_key hd hmem hid⟩
      refine ⟨.inl, ?_⟩
      rintro (hd | rfl)
      · exact hd
      · exact hmem
    · cases hdocuments

/-- The version that is added is one of a document that has no object deleted. -/
theorem Inv.saveAdding {a : Adding} (h : w.Inv) (ha : w.active n = some (.adding a)) (hstored : a.stored)
    (hs : w.saveAdding a = some w') : (w'.set n none).Inv := by
  obtain ⟨documents, versions, rfl, hinsert, hdocuments, hsame⟩ := saveAdding_eq_some hs
  have hready := h.adding n a ha
  have hnone := h.set_none (n := n)
  have hrow : ∀ v, v ∈ versions ↔ v ∈ w.versions ∨ v = a.version := fun v => Table.mem_insert hinsert
  refine ⟨?_, ?_, ?_, ?_, ?_, hnone.apart, ?_, h.cleaned⟩
  · intro v hv
    rcases (hrow v).1 hv with hv | rfl
    · exact hnone.rows v hv
    · refine ⟨hready.owner, ?_⟩
      rintro ⟨m, b, hb, hkey⟩
      by_cases hm : m = n
      · subst hm
        rw [active_set_self] at hb
        cases hb
      · rw [active_set_ne hm] at hb
        exact hm (h.apart m n b a hb ha hkey)
  · intro v hv
    rcases (hrow v).1 hv with hv | rfl
    · obtain ⟨d, hd, hid⟩ := h.documents v hv
      exact ⟨d, (hdocuments d).2 (.inl hd), hid⟩
    · exact ⟨a.document, (hdocuments _).2 (.inr rfl), hready.document.symm⟩
  · intro v hv hkey
    rcases (hrow v).1 hv with hv | rfl
    · exact h.stored v hv hkey
    · exact hready.stored hstored
  · intro v hv d hd hid hlive
    rcases (hrow v).1 hv with hv | rfl
    · -- A row of the document was there before, so the document was.
      obtain ⟨d', hd', hid'⟩ := h.documents v hv
      rcases (hdocuments d).1 hd with hd | rfl
      · exact h.live v hv d hd hid hlive
      · obtain rfl := hsame d' hd' (hid'.trans hid.symm)
        exact h.live v hv _ hd' hid hlive
    · exact hready.kept
  · exact fun m b hb =>
      ⟨(hnone.adding m b hb).owner, (hnone.adding m b hb).document, (hnone.adding m b hb).live,
        (hnone.adding m b hb).kept, (hnone.adding m b hb).stored⟩
  · exact fun m c hc => ⟨(hnone.cleaning m c hc).keys, (hnone.cleaning m c hc).snapshot⟩

/-- Documents that keep their ids, none of which becomes live after it lost an object. -/
theorem Inv.documents_save {d d' : Document} (h : w.Inv) (hid : d'.id = d.id) (hd : d ∈ w.documents)
    (hlive : d'.deletedAt = none → ∀ v ∈ w.versions, v.documentId = d.id → v.objectKey ∉ w.cleaned) :
    ({ w with documents := w.documents.save d' } : World).Inv := by
  have hmem : ∀ x, x ∈ w.documents.save d' ↔ x = d' ∨ x ∈ w.documents ∧ x.id ≠ d.id := fun x =>
    Table.mem_save_of_mem hd hid
  refine ⟨h.rows, ?_, h.stored, ?_, ?_, h.apart, ?_, h.cleaned⟩
  · intro v hv
    obtain ⟨x, hx, hxid⟩ := h.documents v hv
    by_cases hxd : x.id = d.id
    · exact ⟨d', (hmem d').2 (.inl rfl), hid.trans (hxd.symm.trans hxid)⟩
    · exact ⟨x, (hmem x).2 (.inr ⟨hx, hxd⟩), hxid⟩
  · intro v hv x hx hxid hxlive
    rcases (hmem x).1 hx with rfl | ⟨hx, -⟩
    · exact hlive hxlive v hv (hxid.symm.trans hid)
    · exact h.live v hv x hx hxid hxlive
  · exact fun m b hb => ⟨(h.adding m b hb).owner, (h.adding m b hb).document, (h.adding m b hb).live,
      (h.adding m b hb).kept, (h.adding m b hb).stored⟩
  · exact fun m c hc => ⟨(h.cleaning m c hc).keys, (h.cleaning m c hc).snapshot⟩

theorem Inv.saveLocked {d d' : Document} (h : w.Inv) (hid : d'.id = d.id)
    (hlive : d ∈ w.documents → d'.deletedAt = none → ∀ v ∈ w.versions, v.documentId = d.id →
      v.objectKey ∉ w.cleaned)
    (hs : w.saveLocked d d' = some w') : w'.Inv := by
  unfold World.saveLocked at hs
  split at hs
  · cases hs
    rename_i hd
    exact h.documents_save hid hd (hlive hd)
  · cases hs

/-- The versions go with their documents. -/
theorem Inv.removeSelected {selected : List Document} (h : w.Inv) (hs : w.removeSelected selected = some w') :
    w'.Inv := by
  unfold World.removeSelected at hs
  split at hs
  swap
  · cases hs
  cases hs
  have hdoc : ∀ {d}, d ∈ (w.documents.delete fun row => row.id ∈ selected.map Document.id) ↔
      d ∈ w.documents ∧ d.id ∉ selected.map Document.id := by
    intro d
    rw [Table.mem_delete, decide_eq_false_iff_not]
  have hrow : ∀ {v}, v ∈ (w.versions.delete fun v => v.documentId ∈ selected.map Document.id) ↔
      v ∈ w.versions ∧ v.documentId ∉ selected.map Document.id := by
    intro v
    rw [Table.mem_delete, decide_eq_false_iff_not]
  refine ⟨fun v hv => h.rows v (hrow.1 hv).1, ?_, fun v hv => h.stored v (hrow.1 hv).1, ?_, ?_,
    h.apart, ?_, h.cleaned⟩
  · intro v hv
    obtain ⟨hv, hne⟩ := hrow.1 hv
    obtain ⟨d, hd, hid⟩ := h.documents v hv
    exact ⟨d, hdoc.2 ⟨hd, hid ▸ hne⟩, hid⟩
  · exact fun v hv d hd => h.live v (hrow.1 hv).1 d (hdoc.1 hd).1
  · exact fun m b hb => ⟨(h.adding m b hb).owner, (h.adding m b hb).document, (h.adding m b hb).live,
      (h.adding m b hb).kept, (h.adding m b hb).stored⟩
  · exact fun m c hc => ⟨(h.cleaning m c hc).keys, (h.cleaning m c hc).snapshot⟩

/-- What a commit writes, if it goes through. -/
theorem Inv.commitTx {tx : Tx} (h : w.Inv) (hc : w.Restorable (some tx)) (htx : w.active n = some tx)
    (hs : w.commitTx tx = some w') : (w'.set n none).Inv := by
  cases tx with
  | adding a =>
    unfold World.commitTx at hs
    dsimp only at hs
    split at hs
    · exact h.saveAdding htx ‹_› hs
    · cases hs
  | deleting d now =>
    refine (h.saveLocked (d := d) ?_ (fun _ hlive => ?_) hs).set_none
    · rfl
    · cases hlive
  | restoring d =>
    unfold World.commitTx at hs
    dsimp only at hs
    split at hs
    · -- The document is live already.
      refine (h.saveLocked (d := d) ?_ (fun hd hlive v hv hid => h.live v hv d hd hid.symm hlive) hs).set_none
      rfl
    · rename_i hdeleted
      refine (h.saveLocked (d := d) ?_ (fun hd _ v hv hid => ?_) hs).set_none
      · rfl
      · exact hc hd hdeleted v (List.mem_filter.2 ⟨hv, decide_eq_true hid⟩)
  | cleaning c =>
    unfold World.commitTx at hs
    dsimp only at hs
    split at hs
    · exact (h.removeSelected hs).set_none
    · cases hs

/-! ### Runs -/

theorem Inv.step {e : Event} (h : w.Inv) (hc : w.Careful e) (hs : w.step e = some w') : w'.Inv := by
  cases e with
  | upload m d v bytes quota =>
    simp only [World.step] at hs
    split at hs
    · rename_i hd
      exact h.beginAdding hd.2.1 hd.1 rfl hs
    · cases hs
  | addVersion m expected v bytes =>
    simp only [World.step] at hs
    obtain ⟨d, hd, hs⟩ := Option.bind_eq_some_iff.1 hs
    split at hs
    · rename_i hlive
      exact h.beginAdding (Table.find?_eq_some.1 hd).2.symm hlive.1 rfl hs
    · cases hs
  | store m =>
    simp only [World.step] at hs
    split at hs
    · rename_i a ha
      split at hs
      · cases hs
      · cases hs
        exact h.store ha (Bool.not_eq_true _ ▸ ‹¬ a.stored = true›)
    · cases hs
  | discard m =>
    simp only [World.step] at hs
    split at hs
    · cases hs
      exact h.discard ‹_›
    · cases hs
  | delete m id expected now =>
    simp only [World.step] at hs
    obtain ⟨d, -, hs⟩ := Option.bind_eq_some_iff.1 hs
    split at hs
    · obtain ⟨-, rfl⟩ := begin_eq_some hs
      exact h.set_other (fun _ ha => by cases ha) fun _ hc => by cases hc
    · cases hs
  | restore m id =>
    simp only [World.step] at hs
    obtain ⟨d, -, hs⟩ := Option.bind_eq_some_iff.1 hs
    obtain ⟨-, rfl⟩ := begin_eq_some hs
    exact h.set_other (fun _ ha => by cases ha) fun _ hc => by cases hc
  | cleanup m cutoff repeatableRead =>
    simp only [World.step] at hs
    obtain ⟨-, rfl⟩ := begin_eq_some hs
    refine h.set_other (fun _ ha => by cases ha) fun c hc => ?_
    cases hc
    refine ⟨fun _ hkey => (by cases hkey), fun t ht v hv => ?_⟩
    cases repeatableRead with
    | false => cases ht
    | true =>
      cases ht
      exact h.rows v hv
  | nextDocument m =>
    simp only [World.step] at hs
    split at hs
    swap
    · cases hs
    rename_i c hactive
    have hshown := h.cleaning m c hactive
    split at hs
    swap
    · cases hs
    cases hs
    refine h.set_other (fun _ ha => by cases ha) fun c' hc' => ?_
    cases hc'
    refine ⟨fun key hkey => ?_, hshown.snapshot⟩
    obtain ⟨v, hv, rfl⟩ := List.mem_map.1 hkey
    obtain ⟨hv, hid⟩ := List.mem_filter.1 hv
    have hpublic : w.Public v.objectKey v.documentId := by
      cases hsnap : c.snapshot with
      | none =>
        rw [hsnap] at hv
        exact h.rows v hv
      | some t =>
        rw [hsnap] at hv
        exact hshown.snapshot t hsnap v hv
    rw [of_decide_eq_true hid] at hpublic
    exact hpublic
  | deleteObject m =>
    simp only [World.step] at hs
    split at hs
    swap
    · cases hs
    rename_i c hactive
    split at hs
    swap
    · cases hs
    rename_i key keys hkeys
    cases hs
    have hdead : w.Erasable (some (.cleaning c)) := hactive ▸ hc
    refine (h.deleteObject hactive hkeys hdead).set_other (fun _ ha => by cases ha) fun c' hc' => ?_
    cases hc'
    have hshown := h.cleaning m c hactive
    exact ⟨fun key' hkey => hshown.keys key' (by simp [hkeys, hkey]), hshown.snapshot⟩
  | commit m =>
    obtain ⟨tx, htx, rfl⟩ := Option.map_eq_some_iff.1 hs
    cases hw : w.commitTx tx with
    | none => exact h.set_none
    | some w₁ =>
      have hc : w.Restorable (some tx) := htx ▸ hc
      exact h.commitTx hc htx hw
  | rollback m =>
    cases hs
    exact h.set_none
  | download =>
    cases hs
    exact h

theorem Inv.run {es : List Event} (h : w.Inv) (hc : w.CarefulRun es) (hr : w.run es = some w') : w'.Inv :=
  hc.keeps (fun _ _ _ h hc hs => h.step hc hs) h hr

/-- In a run whose steps are careful every version of a live document keeps its object. -/
theorem live_intact (es : List Event) (w : World) (hc : empty.CarefulRun es)
    (hr : empty.run es = some w) : w.Intact :=
  (Inv.empty.run hc hr).intact

/-! ### Runs that can be decided -/

instance (w : World) : DecidablePred w.Restorable
  | some (.restoring d) => inferInstanceAs (Decidable (d ∈ w.documents.rows → _))
  | some (.adding _) | some (.deleting _ _) | some (.cleaning _) | none => isTrue trivial

instance (w : World) : DecidablePred w.Erasable
  | some (.cleaning c) => inferInstanceAs (Decidable (∀ d ∈ w.documents.rows, d.id = c.current → _))
  | some (.adding _) | some (.deleting _ _) | some (.restoring _) | none => isTrue trivial

instance (w : World) : (e : Event) → Decidable (w.Careful e)
  | .commit n => inferInstanceAs (Decidable (w.Restorable (w.active n)))
  | .deleteObject n => inferInstanceAs (Decidable (w.Erasable (w.active n)))
  | .upload .. | .addVersion .. | .store _ | .discard _ | .delete .. | .restore ..
  | .cleanup .. | .nextDocument _
  | .rollback _ | .download => isTrue trivial

end World

/-! ### A clean-up that is rolled back -/

namespace Receipt

def receipt : Document :=
  { id := 1, resourceType := "USER", resourceId := 9, deletedAt := none, version := 0 }

def scan : DocumentVersion :=
  { id := 10, documentId := 1, versionNumber := 1, objectKey := "quarantine/1/a", contentType := "image/png"
    checksumSha256 := "", scanStatus := .pending, scanDetail := none, scannedAt := none, createdAt := 0 }

/-- The document is stored and deleted, and the time for which it is kept passes. -/
def stored : List Event :=
  [.upload 1 receipt scan [137] (some 20), .store 1, .commit 1, .delete 2 1 0 1000, .commit 2]

/-- A clean-up that runs alone. -/
def cleaned : List Event := [.cleanup 3 2000 false, .nextDocument 3, .deleteObject 3, .commit 3]

/-- The document is restored between the clean-up's deletion of the object and its commit,
which finds the row changed. -/
def restored : List Event :=
  [.cleanup 3 2000 false, .nextDocument 3, .deleteObject 3, .restore 4 1, .commit 4, .commit 3]

theorem receipt_lost : ∃ w ∈ World.empty.run (stored ++ restored), ¬ w.Intact := by
  refine ⟨_, rfl, fun h => ?_⟩
  obtain ⟨bytes, -, hobject⟩ := h scan (.head _) { receipt with version := 2 } (.head _) rfl rfl
  cases hobject

/-- The document is restored before the clean-up, deleted again and cleaned up. -/
def tended : List Event :=
  stored ++ [.restore 5 1, .commit 5, .download, .delete 6 1 2 1500, .commit 6] ++ cleaned

theorem live_intact_tended : ∃ w ∈ World.empty.run tended, w.Intact :=
  ⟨_, rfl, World.live_intact tended _ (by decide +kernel) rfl⟩

end Receipt

end GManager.Documents
