import GManager.Cart

/-!
# An order is placed once

As long as the outcome of an attempt is open it is on the device, in every write that waits and in the
page (`World.Locked`), so whatever goes out next is the same attempt with the same key. Three things are
asked of a run (`World.Spares`): a request is not refused for good while another one of its key is on the
way or has come through, the server keeps a key until its attempt is forgotten, and the session does not
end while the outcome of an attempt is open. The rate limit stands before the keys and `clearSession`
purges the draft, so neither is given.
-/

namespace GManager.Cart

/-! ### Quantities -/

/-- What the server takes for the items of an order. -/
structure Good (quantities : List Item) : Prop where
  nodup : (quantities.map Item.productId).Nodup
  orderable : ∀ i ∈ quantities, orderable i = true

section quantities

variable {q : List Item} {id : UUID} {amount : ℕ}

theorem Good.nil : Good [] := ⟨List.nodup_nil, fun _ h => absurd h List.not_mem_nil⟩

theorem Good.filter (h : Good q) (f : Item → Bool) : Good (q.filter f) :=
  ⟨h.nodup.sublist (List.filter_sublist.map _), fun i hi => h.orderable i (List.mem_of_mem_filter hi)⟩

theorem Good.sort (h : Good q) : Good (q.insertionSort byProduct) := by
  have hperm := q.perm_insertionSort byProduct
  exact ⟨(hperm.map _).nodup_iff.2 h.nodup, fun i hi => h.orderable i (hperm.mem_iff.1 hi)⟩

theorem Good.buildCart (h : Good q) (resolved : List UUID) : Good (buildCart resolved q) := h.sort.filter _

theorem Good.assign (h : Good q) (hamount : 1 ≤ amount ∧ amount ≤ 999) : Good (assign q id amount) := by
  have hnew : Cart.orderable ⟨id, amount⟩ = true := by
    simpa [Cart.orderable] using hamount
  unfold Cart.assign
  split_ifs with hany
  · constructor
    · have hids : (q.map fun i => if i.productId = id then (⟨id, amount⟩ : Item) else i).map Item.productId =
          q.map Item.productId := by
        rw [List.map_map]
        refine List.map_congr_left fun i _ => ?_
        simp only [Function.comp_apply]
        split_ifs with hi
        · exact hi.symm
        · rfl
      rw [hids]
      exact h.nodup
    · intro i hi
      obtain ⟨j, hj, rfl⟩ := List.mem_map.1 hi
      split_ifs
      · exact hnew
      · exact h.orderable j hj
  · have hid : id ∉ q.map Item.productId := by
      simpa using hany
    constructor
    · rw [List.map_append, List.map_singleton, ← List.concat_eq_append]
      exact h.nodup.concat hid
    · intro i hi
      rcases List.mem_append.1 hi with hi | hi
      · exact h.orderable i hi
      · rw [List.mem_singleton.1 hi]
        exact hnew

theorem Good.quantityOf_le (h : Good q) (id : UUID) : quantityOf q id ≤ 999 := by
  unfold quantityOf
  cases hfind : q.find? fun i => i.productId = id with
  | none => simp
  | some i =>
    have hi := h.orderable i (List.mem_of_find?_eq_some hfind)
    simp only [Cart.orderable, decide_eq_true_eq] at hi
    exact hi.2

theorem Good.changed (h : Good q) (id : UUID) (quantity : ℤ) : Good (changed q id quantity) := by
  unfold Cart.changed
  dsimp only
  split_ifs with hzero
  · exact h.filter _
  · exact h.assign (by omega)

theorem Good.added (h : Good q) (id : UUID) (minimum : Bool) : Good (added q id minimum) := by
  have hle := h.quantityOf_le id
  refine h.assign ?_
  split_ifs <;> omega

theorem Good.restored {draft : Option Draft} (h : ∀ d ∈ draft, Good d.quantities) :
    Good (restored draft).quantities := by
  cases draft with
  | none => exact .nil
  | some d =>
    have hbase : Good (normalizeCartQuantities d.quantities) := (h d rfl).filter _
    have hitems : ∀ i ∈ ((savedAttempt d.attempt).map Attempt.items).getD [], Cart.orderable i = true := by
      intro i hi
      cases hattempt : savedAttempt d.attempt with
      | none =>
        rw [hattempt] at hi
        cases hi
      | some a =>
        rw [hattempt] at hi
        obtain ⟨-, hwell⟩ := Option.filter_eq_some_iff.1 hattempt
        simp only [Attempt.wellFormed, decide_eq_true_eq] at hwell
        exact hwell.2.2 i hi
    show Good (List.foldl _ _ _)
    generalize normalizeCartQuantities d.quantities = base at hbase
    generalize ((savedAttempt d.attempt).map Attempt.items).getD [] = items at hitems
    induction items generalizing base with
    | nil => exact hbase
    | cons i items ih =>
      have hi := hitems i List.mem_cons_self
      simp only [Cart.orderable, decide_eq_true_eq] at hi
      exact ih _ (hbase.assign hi) fun j hj => hitems j (List.mem_cons_of_mem _ hj)

end quantities

/-! ### The network and the server -/

namespace Net

variable {net : Net} {a x : Attempt} {n : ℕ} {previous : Bool} {reply : Reply}

/-- A request for the attempt is on its way. -/
def Travels (net : Net) (a : Attempt) : Prop :=
  ∃ n ∈ net.inFlight, ∃ r, net.requests[n]? = some r ∧ r.attempt = a

/-- The attempt has become an order, or may still. -/
def Alive (net : Net) (a : Attempt) : Prop := a ∈ net.orders ∨ net.Travels a

structure Sound (net : Net) : Prop where
  keys : (net.issued.map Attempt.key).Nodup
  wellFormed : ∀ a ∈ net.issued, a.wellFormed = true
  requests : ∀ r ∈ net.requests, r.attempt ∈ net.issued
  inFlight : net.inFlight.Nodup ∧ ∀ n ∈ net.inFlight, n < net.requests.length
  answers : ∀ x ∈ net.answers, x.1 < net.requests.length ∧ x.1 ∉ net.inFlight
  rows : ∀ a ∈ net.rows, a ∈ net.orders
  created : ∀ n r, (n, .created) ∈ net.answers → net.requests[n]? = some r → r.attempt ∈ net.orders
  orders : ∀ a ∈ net.orders, ∃ n ∉ net.inFlight, ∃ r, net.requests[n]? = some r ∧ r.attempt = a
  nodup : net.orders.Nodup

theorem Sound.eq_of_key (h : net.Sound) (ha : a ∈ net.issued) (hx : x ∈ net.issued)
    (hkey : a.key = x.key) : a = x :=
  List.inj_on_of_nodup_map h.keys ha hx hkey

theorem Sound.issued_of_order (h : net.Sound) (ha : a ∈ net.orders) : a ∈ net.issued := by
  obtain ⟨n, -, r, hr, rfl⟩ := h.orders a ha
  exact h.requests r (List.mem_of_getElem? hr)

theorem Sound.issued_of_alive (h : net.Sound) (ha : net.Alive a) : a ∈ net.issued := by
  rcases ha with ha | ⟨n, -, r, hr, rfl⟩
  · exact h.issued_of_order ha
  · exact h.requests r (List.mem_of_getElem? hr)

theorem Sound.not_alive (h : net.Sound) (ha : ∀ r ∈ net.requests, r.attempt ≠ a) : ¬ net.Alive a := by
  rintro (hmem | ⟨n, -, r, hr, hra⟩)
  · obtain ⟨n, -, r, hr, hra⟩ := h.orders a hmem
    exact ha r (List.mem_of_getElem? hr) hra
  · exact ha r (List.mem_of_getElem? hr) hra

/-! #### A request is sent -/

theorem getElem?_send {r : Request} (h : (net.send a previous).requests[n]? = some r) :
    net.requests[n]? = some r ∨ n = net.requests.length ∧ r = ⟨a, previous⟩ := by
  rw [send, List.getElem?_append] at h
  split_ifs at h with hn
  · exact .inl h
  · obtain ⟨hlt, hr⟩ := List.getElem?_eq_some_iff.1 h
    simp only [List.length_singleton] at hlt
    have hzero : n - net.requests.length = 0 := by omega
    refine .inr ⟨by omega, ?_⟩
    simpa [hzero] using hr.symm

theorem getElem?_send_of_lt {r : Request} (h : net.requests[n]? = some r) :
    (net.send a previous).requests[n]? = some r := by
  obtain ⟨hn, -⟩ := List.getElem?_eq_some_iff.1 h
  rw [send, List.getElem?_append_left hn, h]

theorem Travels.of_send (h : (net.send a previous).Travels x) : net.Travels x ∨ x = a := by
  obtain ⟨n, hn, r, hr, rfl⟩ := h
  rcases getElem?_send hr with hr | ⟨-, rfl⟩
  · rcases List.mem_append.1 hn with hn | hn
    · exact .inl ⟨n, hn, r, hr, rfl⟩
    · obtain rfl := List.mem_singleton.1 hn
      rw [List.getElem?_eq_none le_rfl] at hr
      cases hr
  · exact .inr rfl

theorem Alive.of_send (h : (net.send a previous).Alive x) : net.Alive x ∨ x = a := by
  rcases h with h | h
  · exact .inl (.inl h)
  · exact h.of_send.imp_left .inr

theorem Sound.send (h : net.Sound) (ha : a ∈ net.issued) : (net.send a previous).Sound where
  keys := h.keys
  wellFormed := h.wellFormed
  requests r hr := by
    rcases List.mem_append.1 hr with hr | hr
    · exact h.requests r hr
    · rw [List.mem_singleton.1 hr]
      exact ha
  inFlight := by
    obtain ⟨hnodup, hlt⟩ := h.inFlight
    simp only [Net.send, List.length_append, List.length_singleton]
    refine ⟨?_, fun n hn => ?_⟩
    · rw [← List.concat_eq_append]
      exact hnodup.concat fun hmem => (hlt _ hmem).false
    · rcases List.mem_append.1 hn with hn | hn
      · exact (hlt n hn).trans_le (Nat.le_succ _)
      · rw [List.mem_singleton.1 hn]
        exact Nat.lt_succ_self _
  answers x hx := by
    obtain ⟨hlt, hnot⟩ := h.answers x hx
    simp only [Net.send, List.length_append, List.length_singleton, List.mem_append, List.mem_singleton]
    exact ⟨by omega, by rintro (hmem | heq); exacts [hnot hmem, by omega]⟩
  rows := h.rows
  created n r hcreated hr := by
    have hlt := (h.answers _ hcreated).1
    rcases getElem?_send hr with hr | ⟨rfl, -⟩
    · exact h.created n r hcreated hr
    · exact absurd hlt (lt_irrefl _)
  orders x hx := by
    obtain ⟨n, hn, r, hr, hrx⟩ := h.orders x hx
    refine ⟨n, fun hmem => ?_, r, getElem?_send_of_lt hr, hrx⟩
    rcases List.mem_append.1 hmem with hmem | hmem
    · exact hn hmem
    · obtain rfl := List.mem_singleton.1 hmem
      rw [List.getElem?_eq_none le_rfl] at hr
      cases hr
  nodup := h.nodup

/-! #### A request is answered -/

theorem Travels.of_answer (h : (net.answer n reply).Travels x) : net.Travels x := by
  obtain ⟨m, hm, r, hr, hx⟩ := h
  exact ⟨m, List.mem_of_mem_erase hm, r, hr, hx⟩

theorem Alive.of_answer (h : (net.answer n reply).Alive x) : net.Alive x := h.imp id Travels.of_answer

theorem Sound.answer (h : net.Sound) (hn : n ∈ net.inFlight)
    (hcreated : reply = .created → ∀ r, net.requests[n]? = some r → r.attempt ∈ net.orders) :
    (net.answer n reply).Sound where
  keys := h.keys
  wellFormed := h.wellFormed
  requests := h.requests
  inFlight := ⟨h.inFlight.1.erase n, fun m hm => h.inFlight.2 m (List.mem_of_mem_erase hm)⟩
  answers x hx := by
    rcases List.mem_append.1 hx with hx | hx
    · exact ⟨(h.answers x hx).1, fun hmem => (h.answers x hx).2 (List.mem_of_mem_erase hmem)⟩
    · rw [List.mem_singleton.1 hx]
      exact ⟨h.inFlight.2 n hn, h.inFlight.1.not_mem_erase⟩
  rows := h.rows
  created m r hmem hr := by
    rcases List.mem_append.1 hmem with hmem | hmem
    · exact h.created m r hmem hr
    · cases List.mem_singleton.1 hmem
      exact hcreated rfl r hr
  orders x hx := by
    obtain ⟨m, hm, r, hr, hrx⟩ := h.orders x hx
    exact ⟨m, fun hmem => hm (List.mem_of_mem_erase hmem), r, hr, hrx⟩
  nodup := h.nodup

theorem serve_eq (net : Net) (n : ℕ) (a : Attempt) :
    (∃ reply, (reply = .created ∨ reply = .refused 409 true) ∧ net.serve n a = net.answer n reply) ∨
      net.serve n a =
        Net.answer { net with rows := net.rows ++ [a], orders := net.orders ++ [a] } n .created := by
  unfold serve
  split
  · refine .inl ⟨_, ?_, rfl⟩
    split_ifs <;> simp
  · exact .inr rfl

theorem orders_serve (h : x ∈ (net.serve n a).orders) : x ∈ net.orders ∨ x = a := by
  unfold serve at h
  split at h
  · exact .inl h
  · exact (List.mem_append.1 h).imp_right List.mem_singleton.1

theorem Alive.of_serve {r : Request} (hn : n ∈ net.inFlight) (hr : net.requests[n]? = some r)
    (h : (net.serve n r.attempt).Alive x) : net.Alive x := by
  rcases h with h | h
  · rcases orders_serve h with h | rfl
    · exact .inl h
    · exact .inr ⟨n, hn, r, hr, rfl⟩
  · unfold serve at h
    split at h
    · exact .inr h.of_answer
    · have htravels : Net.Travels
          { net with rows := net.rows ++ [r.attempt], orders := net.orders ++ [r.attempt] } x :=
        h.of_answer
      exact .inr htravels

/-- A row of the key of an attempt is its own. -/
theorem Sound.eq_of_find (h : net.Sound) (ha : a ∈ net.issued)
    (hfind : net.rows.find? (fun r => r.key = a.key) = some x) : x = a ∧ a ∈ net.orders := by
  have hmem := h.rows x (List.mem_of_find?_eq_some hfind)
  have hkey := List.find?_some hfind
  obtain rfl := h.eq_of_key (h.issued_of_order hmem) ha (of_decide_eq_true hkey)
  exact ⟨rfl, hmem⟩

/-- The server knows the key of every order that may be asked for again. -/
theorem Sound.serve (h : net.Sound) {r : Request} (hn : n ∈ net.inFlight) (hr : net.requests[n]? = some r)
    (hknown : r.attempt ∈ net.orders → r.attempt ∈ net.rows) : (net.serve n r.attempt).Sound := by
  have hissued := h.requests r (List.mem_of_getElem? hr)
  unfold Net.serve
  split
  · rename_i x hx
    refine h.answer hn fun _ r' hr' => ?_
    cases hr.symm.trans hr'
    exact (h.eq_of_find hissued hx).2
  · rename_i hnone
    have hnot : r.attempt ∉ net.orders := by
      intro hmem
      simpa using List.find?_eq_none.1 hnone _ (hknown hmem)
    have hanswer : (net.answer n (.refused 0 false)).Sound := h.answer hn (fun hcreated => by cases hcreated)
    refine ⟨h.keys, h.wellFormed, h.requests, hanswer.inFlight, fun x hx => ?_, fun x hx => ?_,
      fun m r' hmem hr' => ?_, fun x hx => ?_, ?_⟩
    · rcases List.mem_append.1 hx with hx | hx
      · exact hanswer.answers x (List.mem_append_left _ hx)
      · rw [List.mem_singleton.1 hx]
        exact hanswer.answers (n, .refused 0 false) (List.mem_append_right _ (List.mem_singleton.2 rfl))
    · rcases List.mem_append.1 hx with hx | hx
      · exact List.mem_append_left _ (h.rows x hx)
      · exact List.mem_append_right _ hx
    · rcases List.mem_append.1 hmem with hmem | hmem
      · exact List.mem_append_left _ (h.created m r' hmem hr')
      · cases List.mem_singleton.1 hmem
        cases hr.symm.trans hr'
        exact List.mem_append_right _ (List.mem_singleton.2 rfl)
    · rcases List.mem_append.1 hx with hx | hx
      · exact hanswer.orders x hx
      · exact ⟨n, h.inFlight.1.not_mem_erase, r, hr, (List.mem_singleton.1 hx).symm⟩
    · show (net.orders ++ [r.attempt]).Nodup
      rw [← List.concat_eq_append]
      exact h.nodup.concat hnot

/-- A request that is taken ends with its order. -/
theorem Sound.serve_created (h : net.Sound) (ha : a ∈ net.issued) :
    (n, .created) ∈ (net.serve n a).answers ∧ a ∈ (net.serve n a).orders := by
  unfold Net.serve
  split
  · rename_i r hr
    obtain ⟨rfl, hmem⟩ := h.eq_of_find ha hr
    rw [if_pos rfl]
    exact ⟨List.mem_append_right _ (List.mem_singleton.2 rfl), hmem⟩
  · exact ⟨List.mem_append_right _ (List.mem_singleton.2 rfl),
      List.mem_append_right _ (List.mem_singleton.2 rfl)⟩

end Net

/-! ### The device -/

/-- The attempt is saved, and by every write that waits. -/
structure Device.Keeps (d : Device) (a : Attempt) : Prop where
  draft : ∃ x ∈ d.draft, x.attempt = some a
  writes : ∀ s ∈ d.writes, s.attempt = some a

/-- The write of this number saves the attempt, and no later one saves anything else. -/
def Device.SavesAt (d : Device) (n : ℕ) (a : Attempt) : Prop :=
  ∃ before after, d.writes = before ++ after ∧ n = d.written + before.length ∧ after ≠ [] ∧
    ∀ s ∈ after, s.attempt = some a

theorem Device.Keeps.persist {d : Device} {a : Attempt} {s : CartState} (h : d.Keeps a)
    (hs : s.attempt = some a) : (d.persist s).Keeps a := by
  refine ⟨h.draft, fun t ht => ?_⟩
  rcases List.mem_append.1 ht with ht | ht
  · exact h.writes t ht
  · rw [List.mem_singleton.1 ht]
    exact hs

theorem Device.SavesAt.persist {d : Device} {n : ℕ} {a : Attempt} {s : CartState} (h : d.SavesAt n a)
    (hs : s.attempt = some a) : (d.persist s).SavesAt n a := by
  obtain ⟨before, after, hwrites, hn, hne, hafter⟩ := h
  refine ⟨before, after ++ [s], ?_, hn, by simp, fun t ht => ?_⟩
  · rw [Device.persist, hwrites, List.append_assoc]
  · rcases List.mem_append.1 ht with ht | ht
    · exact hafter t ht
    · rw [List.mem_singleton.1 ht]
      exact hs

/-- What is known of the attempt, wherever `send` stands. -/
def Sends (d : Device) (net : Net) (attempt : Option Attempt) : Option Sending → Prop
  | none => ∀ a ∈ attempt, d.Keeps a
  | some (.saving n a) => attempt = some a ∧ d.SavesAt n a ∧ ∀ r ∈ net.requests, r.attempt ≠ a
  | some (.requested n a previous) => attempt = some a ∧ d.Keeps a ∧ net.requests[n]? = some ⟨a, previous⟩ ∧
    ∀ reply, (n, reply) ∈ net.answers → reply ≠ .created → uncertain previous reply = false → ¬ net.Alive a
  | some (.clearing _) => attempt = none

structure Page.Sound (d : Device) (net : Net) (p : Page) : Prop where
  load : ∀ n ∈ p.load, p.state.ready = false ∧ n = d.next
  unready : p.state.ready = false → p.sending = none
  quantities : Good p.state.quantities
  checkout : ∀ q ∈ p.checkout, Good q
  issued : ∀ a ∈ p.state.attempt, a ∈ net.issued
  sends : Sends d net p.state.attempt p.sending

namespace World

/-- The cart is locked: whatever is sent next is the attempt. -/
structure Locked (w : World) (a : Attempt) : Prop where
  device : w.device.Keeps a
  page : ∀ p ∈ w.page, p.state.ready = true → p.state.attempt = some a

/-- The attempt is not forgotten. -/
def Present (w : World) (a : Attempt) : Prop :=
  (∃ d ∈ w.device.draft, d.attempt = some a) ∨ (∃ s ∈ w.device.writes, s.attempt = some a) ∨
    (∃ p ∈ w.page, p.state.attempt = some a) ∨ w.net.Travels a

structure Sound (w : World) : Prop where
  net : w.net.Sound
  draft : ∀ d ∈ w.device.draft, Good d.quantities ∧ ∀ a ∈ d.attempt, a ∈ w.net.issued
  writes : ∀ s ∈ w.device.writes, Good s.quantities ∧ ∀ a ∈ s.attempt, a ∈ w.net.issued
  page : ∀ p ∈ w.page, p.Sound w.device w.net
  remembered : ∀ a ∈ w.net.orders, w.Present a → a ∈ w.net.rows
  locked : ∀ a, w.net.Alive a → a ∈ w.confirmed ∨ w.Locked a

variable {w w' : World} {p p' : Page} {a x : Attempt} {n : ℕ} {s : CartState}

theorem Sound.new : new.Sound := by
  refine ⟨⟨List.nodup_nil, ?_, ?_, ⟨List.nodup_nil, ?_⟩, ?_, ?_, ?_, ?_, List.nodup_nil⟩, ?_, ?_, ?_, ?_, ?_⟩
  all_goals simp [World.new, Net.Alive, Net.Travels]

theorem Present.issued (h : w.Sound) (ha : w.Present a) : a ∈ w.net.issued := by
  rcases ha with ⟨d, hd, ha⟩ | ⟨s, hs, ha⟩ | ⟨p, hp, ha⟩ | hnet
  · exact (h.draft d hd).2 a ha
  · exact (h.writes s hs).2 a ha
  · exact (h.page p hp).issued a ha
  · exact h.net.issued_of_alive (.inr hnet)

/-! #### The page acts -/

theorem Sound.ready (h : w.Sound) (hp : w.page = some p) {x : Sending} (hsending : p.sending = some x) :
    p.state.ready = true := by
  by_contra hready
  rw [(h.page p hp).unready (Bool.not_eq_true _ ▸ hready)] at hsending
  cases hsending

/-- Another page, with no attempt that is new and none that is lost. -/
theorem Sound.setPage (h : w.Sound) (hp : p'.Sound w.device w.net)
    (hattempt : ∀ a ∈ p'.state.attempt, w.Present a)
    (hlocked : ∀ a, w.net.Alive a → w.Locked a → p'.state.ready = true → p'.state.attempt = some a) :
    (w.setPage p').Sound where
  net := h.net
  draft := h.draft
  writes := h.writes
  page := by
    rintro p ⟨⟩
    exact hp
  remembered a ha hpresent := by
    refine h.remembered a ha ?_
    rcases hpresent with hd | hs | ⟨p, ⟨⟩, hp⟩ | hnet
    · exact .inl hd
    · exact .inr (.inl hs)
    · exact hattempt a hp
    · exact .inr (.inr (.inr hnet))
  locked a ha := by
    refine (h.locked a ha).imp_right fun hold => ⟨hold.device, ?_⟩
    rintro p ⟨⟩
    exact hlocked a ha hold

/-- A page that knows of the same attempt. -/
theorem Sound.edit (h : w.Sound) (hp : w.page = some p) (hp' : p'.Sound w.device w.net)
    (hready : p'.state.ready = p.state.ready) (hattempt : p'.state.attempt = p.state.attempt) :
    (w.setPage p').Sound := by
  refine h.setPage hp' (fun a ha => ?_) fun a _ hlocked => ?_
  · exact .inr (.inr (.inl ⟨p, hp, hattempt ▸ ha⟩))
  · rw [hready, hattempt]
    exact hlocked.page p hp

theorem Sound.setQuantities (h : w.Sound) (hp : w.page = some p) {q : List Item} (hq : Good q) :
    (w.setPage (p.setQuantities q)).Sound :=
  h.edit hp ⟨(h.page p hp).load, (h.page p hp).unready, hq, (h.page p hp).checkout, (h.page p hp).issued,
    (h.page p hp).sends⟩ rfl rfl

/-- `send` comes to an end with the attempt as it is. -/
theorem Sound.stop (h : w.Sound) (hp : w.page = some p) (hkept : ∀ a ∈ p.state.attempt, w.device.Keeps a)
    {q : Option (List Item)} (hq : ∀ x ∈ q, Good x) :
    (w.setPage { p with sending := none, checkout := q }).Sound :=
  h.edit hp ⟨(h.page p hp).load, fun _ => rfl, (h.page p hp).quantities, hq,
    (h.page p hp).issued, hkept⟩ rfl rfl

/-- An attempt of which nothing can become an order is given up. -/
theorem Sound.release (h : w.Sound) (hp : w.page = some p) (hready : p.state.ready = true)
    (ha : p.state.attempt = some a) (hdead : ¬ w.net.Alive a) : (w.setPage p.release).Sound := by
  refine h.setPage ⟨(h.page p hp).load, fun _ => rfl, (h.page p hp).quantities,
    (h.page p hp).checkout, ?_, ?_⟩ ?_ ?_
  · exact fun x hx => by cases hx
  · exact fun x hx => by cases hx
  · exact fun x hx => by cases hx
  · intro x hx hlocked _
    have heq := (hlocked.page p hp hready).symm.trans ha
    cases heq
    exact absurd hx hdead

/-- The page leaves, and writes may be lost. -/
theorem Sound.leave (h : w.Sound) {writes : List CartState} (hwrites : ∀ s ∈ writes, s ∈ w.device.writes) :
    ({ w with page := none, device := { w.device with writes } } : World).Sound where
  net := h.net
  draft := h.draft
  writes s hs := h.writes s (hwrites s hs)
  page p hp := by cases hp
  remembered a ha hpresent := by
    refine h.remembered a ha ?_
    rcases hpresent with hd | ⟨s, hs, hsa⟩ | ⟨p, ⟨⟩, -⟩ | hnet
    · exact .inl hd
    · exact .inr (.inl ⟨s, hwrites s hs, hsa⟩)
    · exact .inr (.inr (.inr hnet))
  locked a ha := by
    refine (h.locked a ha).imp_right fun hold =>
      ⟨⟨hold.device.draft, fun s hs => hold.device.writes s (hwrites s hs)⟩, ?_⟩
    rintro p ⟨⟩

/-- The session ends; nothing is open. -/
theorem Sound.signOut (h : w.Sound) (hclosed : ∀ a, w.net.Alive a → a ∈ w.confirmed) (purged late : Bool) :
    ({ w with page := none, device := w.device.signOut purged late } : World).Sound := by
  have hdraft : ∀ d ∈ (w.device.signOut purged late).draft, d ∈ w.device.draft ∨
      ∃ s ∈ w.device.writes, d = ⟨s.quantities, s.attempt⟩ := by
    intro d hd
    unfold Device.signOut at hd
    dsimp only at hd
    split at hd
    · rename_i s writes hwrites
      split_ifs at hd
      · refine .inr ⟨s, hwrites ▸ List.mem_cons_self, ?_⟩
        unfold CartState.draft at hd
        split at hd
        · cases hd
        · exact (Option.some.inj hd).symm
      · cases hd
      · exact .inl hd
    · split_ifs at hd
      · cases hd
      · exact .inl hd
  refine ⟨h.net, fun d hd => ?_, fun s hs => absurd hs List.not_mem_nil, fun p hp => (by cases hp),
    fun a ha hpresent => h.remembered a ha ?_, fun a ha => .inl (hclosed a ha)⟩
  · rcases hdraft d hd with hd | ⟨s, hs, rfl⟩
    · exact h.draft d hd
    · exact h.writes s hs
  · rcases hpresent with ⟨d, hd, hda⟩ | ⟨s, hs, -⟩ | ⟨p, ⟨⟩, -⟩ | hnet
    · rcases hdraft d hd with hd | ⟨s, hs, rfl⟩
      · exact .inl ⟨d, hd, hda⟩
      · exact .inr (.inl ⟨s, hs, hda⟩)
    · exact absurd hs List.not_mem_nil
    · exact .inr (.inr (.inr hnet))

theorem Sound.mount (h : w.Sound) : (w.setPage ⟨some w.device.next, .unloaded, false, none, none⟩).Sound := by
  refine h.setPage ⟨?_, fun _ => rfl, .nil, fun q hq => (by cases hq), fun a ha => (by cases ha),
    fun a ha => (by cases ha)⟩ (fun a ha => (by cases ha)) fun a _ _ hready => (by cases hready)
  rintro n ⟨⟩
  exact ⟨rfl, rfl⟩

/-- The draft is loaded once every write has ended, so the attempt in it is the one that counts. -/
theorem Sound.loaded (h : w.Sound) (hp : w.page = some p) (hload : w.loads p = true) :
    (w.setPage { p.set (restored w.device.draft) with load := none }).Sound := by
  obtain ⟨n, hn, hle⟩ := of_decide_eq_true hload
  obtain ⟨hready, rfl⟩ := (h.page p hp).load n hn
  have hwrites : w.device.writes = [] := by
    unfold Device.next at hle
    exact List.length_eq_zero_iff.1 (by omega)
  have hsending := (h.page p hp).unready hready
  have hdraft : ∀ a ∈ (restored w.device.draft).attempt, ∃ d ∈ w.device.draft, d.attempt = some a := by
    intro a ha
    cases hd : w.device.draft with
    | none =>
      rw [hd] at ha
      cases ha
    | some d =>
      rw [hd] at ha
      exact ⟨d, rfl, (Option.filter_eq_some_iff.1 ha).1⟩
  refine h.setPage ⟨fun n hn => (by cases hn), fun _ => hsending, .restored fun d hd => (h.draft d hd).1,
    (h.page p hp).checkout, fun a ha => ?_, ?_⟩ (fun a ha => .inl (hdraft a ha)) fun a ha hlocked _ => ?_
  · obtain ⟨d, hd, hda⟩ := hdraft a ha
    exact (h.draft d hd).2 a hda
  · show Sends w.device w.net (restored w.device.draft).attempt p.sending
    rw [hsending]
    exact fun a ha => ⟨hdraft a ha, by simp [hwrites]⟩
  · obtain ⟨d, hd, hda⟩ := hlocked.device.draft
    show (restored w.device.draft).attempt = some a
    rw [Option.mem_def.1 hd]
    exact Option.filter_eq_some_iff.2 ⟨hda, h.net.wellFormed a (h.net.issued_of_alive ha)⟩

/-! #### Writes -/

theorem Present.of_persist {c : List Attempt} {net : Net}
    (h : Present ⟨w.device.persist s, some p, c, net⟩ x) :
    w.Present x ∨ s.attempt = some x ∨ p.state.attempt = some x ∨ net.Travels x := by
  rcases h with hd | ⟨t, ht, hx⟩ | ⟨p', ⟨⟩, hx⟩ | hnet
  · exact .inl (.inl hd)
  · rcases List.mem_append.1 ht with ht | ht
    · exact .inl (.inr (.inl ⟨t, ht, hx⟩))
    · rw [List.mem_singleton.1 ht] at hx
      exact .inr (.inl hx)
  · exact .inr (.inr (.inl hx))
  · exact .inr (.inr (.inr hnet))

theorem writes_persist (h : w.Sound) {net : Net} (hissued : ∀ a ∈ w.net.issued, a ∈ net.issued)
    (hs : Good s.quantities ∧ ∀ a ∈ s.attempt, a ∈ net.issued) :
    ∀ t ∈ (w.device.persist s).writes, Good t.quantities ∧ ∀ a ∈ t.attempt, a ∈ net.issued := by
  intro t ht
  rcases List.mem_append.1 ht with ht | ht
  · exact ⟨(h.writes t ht).1, fun a ha => hissued a ((h.writes t ht).2 a ha)⟩
  · rw [List.mem_singleton.1 ht]
    exact hs

/-- The effect saves the state of the page. -/
theorem Sound.effect (h : w.Sound) (hp : w.page = some p) (hready : p.state.ready = true) :
    ({ w with
      device := w.device.persist p.state, page := some { p with unsaved := false } } : World).Sound := by
  have hpage := h.page p hp
  refine ⟨h.net, h.draft, writes_persist h (fun _ ha => ha) ⟨hpage.quantities, hpage.issued⟩, ?_,
    fun a ha hpresent => ?_, fun a ha => ?_⟩
  · rintro p' ⟨⟩
    refine ⟨fun n hn => ?_, hpage.unready, hpage.quantities, hpage.checkout, hpage.issued, ?_⟩
    · exact absurd (hpage.load n hn).1 (by simp [hready])
    · have hsends := hpage.sends
      show Sends (w.device.persist p.state) w.net p.state.attempt p.sending
      rcases hsending : p.sending with _ | ⟨n, a⟩ | ⟨n, a, previous⟩ | n
      · rw [hsending] at hsends
        intro a ha
        exact (hsends a ha).persist ha
      · rw [hsending] at hsends
        exact ⟨hsends.1, hsends.2.1.persist hsends.1, hsends.2.2⟩
      · rw [hsending] at hsends
        exact ⟨hsends.1, hsends.2.1.persist hsends.1, hsends.2.2⟩
      · rw [hsending] at hsends
        exact hsends
  · refine h.remembered a ha ?_
    rcases hpresent.of_persist with hold | hpa | hpa | hnet
    · exact hold
    · exact .inr (.inr (.inl ⟨p, hp, hpa⟩))
    · exact .inr (.inr (.inl ⟨p, hp, hpa⟩))
    · exact .inr (.inr (.inr hnet))
  · refine (h.locked a ha).imp_right fun hold => ⟨hold.device.persist (hold.page p hp hready), ?_⟩
    rintro p' ⟨⟩
    exact hold.page p hp

/-- The order is confirmed: its attempt need not be kept any longer. -/
theorem Sound.confirm (h : w.Sound) (hp : w.page = some p) (hready : p.state.ready = true)
    (ha : p.state.attempt = some a) : ({ w with
        device := w.device.persist .cleared
        page := some { p.set .cleared with sending := some (.clearing w.device.next) }
        confirmed := w.confirmed ++ [a] } : World).Sound := by
  have hpage := h.page p hp
  refine ⟨h.net, h.draft, writes_persist h (fun _ ha => ha) ⟨.nil, fun x hx => by cases hx⟩, ?_,
    fun x hx hpresent => ?_, fun x hx => ?_⟩
  · rintro p' ⟨⟩
    refine ⟨fun n hn => ?_, fun hnot => (by cases hnot), .nil, hpage.checkout, fun x hx => (by cases hx), rfl⟩
    exact absurd (hpage.load n hn).1 (by simp [hready])
  · refine h.remembered x hx ?_
    rcases hpresent.of_persist with hold | hpa | hpa | hnet
    · exact hold
    · cases hpa
    · cases hpa
    · exact .inr (.inr (.inr hnet))
  · left
    rcases h.locked x hx with hconfirmed | hlocked
    · exact List.mem_append_left _ hconfirmed
    · have heq := (hlocked.page p hp hready).symm.trans ha
      cases heq
      exact List.mem_append_right _ (List.mem_singleton.2 rfl)

/-! #### Sending -/

/-- A cart that is sent for the first time: there is no open attempt. -/
theorem Sound.submit (h : w.Sound) (hp : w.page = some p) (hready : p.state.ready = true)
    (hattempt : p.state.attempt = none) {snapshot : List Item} {key : UUID} (hsnapshot : Good snapshot)
    (hne : snapshot ≠ []) (hkey : ∀ a ∈ w.net.issued, a.key ≠ key) : (w.submit p snapshot key).Sound := by
  have hpage := h.page p hp
  have hissued : ∀ a ∈ w.net.issued, a ∈ w.net.issued ++ [⟨key, snapshot.insertionSort byProduct⟩] :=
    fun a ha => List.mem_append_left _ ha
  refine ⟨⟨?_, fun a ha => ?_, fun r hr => hissued _ (h.net.requests r hr), h.net.inFlight, h.net.answers,
    h.net.rows, h.net.created, h.net.orders, h.net.nodup⟩, fun d hd => ⟨(h.draft d hd).1, fun a ha =>
    hissued a ((h.draft d hd).2 a ha)⟩, ?_, ?_, fun a ha hpresent => h.remembered a ha ?_, fun a ha => ?_⟩
  · show ((w.net.issued ++ [_]).map Attempt.key).Nodup
    rw [List.map_append, List.map_singleton, ← List.concat_eq_append]
    refine h.net.keys.concat fun hmem => ?_
    obtain ⟨a, ha, hak⟩ := List.mem_map.1 hmem
    exact hkey a ha hak
  · rcases List.mem_append.1 ha with ha | ha
    · exact h.net.wellFormed a ha
    · rw [List.mem_singleton.1 ha]
      have hnil : snapshot.insertionSort byProduct ≠ [] := by
        intro hnil
        have hlength := (snapshot.perm_insertionSort byProduct).length_eq
        rw [hnil] at hlength
        exact hne (List.length_eq_zero_iff.1 hlength.symm)
      simpa [Attempt.wellFormed, hnil] using ⟨hsnapshot.sort.nodup, hsnapshot.orderable⟩
  · refine writes_persist h hissued ⟨hpage.quantities, fun a ha => ?_⟩
    cases ha
    exact List.mem_append_right _ (List.mem_singleton.2 rfl)
  · rintro p' ⟨⟩
    refine ⟨fun n hn => ?_, fun hnot => absurd (hready.symm.trans hnot) (by simp), hpage.quantities,
      hpage.checkout, fun a ha => ?_, rfl, ⟨w.device.writes, [_], rfl, rfl, by simp, ?_⟩, fun r hr heq => ?_⟩
    · exact absurd (hpage.load n hn).1 (by simp [hready])
    · cases ha
      exact List.mem_append_right _ (List.mem_singleton.2 rfl)
    · intro s hs
      rw [List.mem_singleton.1 hs]
    · exact hkey _ (h.net.requests r hr) (congrArg Attempt.key heq)
  · have hnew : ∀ x : Attempt, some (⟨key, snapshot.insertionSort byProduct⟩ : Attempt) = some x → x ≠ a := by
      rintro x ⟨⟩ rfl
      exact hkey _ (h.net.issued_of_order ha) rfl
    rcases hpresent.of_persist with hold | hpa | hpa | hnet
    · exact hold
    · exact absurd rfl (hnew a hpa)
    · exact absurd rfl (hnew a hpa)
    · exact .inr (.inr (.inr hnet))
  · refine (h.locked a ha).imp_right fun hold => ?_
    have hnone := hold.page p hp hready
    rw [hattempt] at hnone
    cases hnone

/-- The attempt goes out, again or for the first time. -/
theorem Sound.request (h : w.Sound) (hp : w.page = some p) (hready : p.state.ready = true)
    (ha : p.state.attempt = some a) (hkeeps : w.device.Keeps a) {previous : Bool} :
    (w.request p a previous).Sound := by
  have hpage := h.page p hp
  refine ⟨h.net.send (hpage.issued a ha), h.draft, h.writes, ?_, fun x hx hpresent =>
    h.remembered x hx ?_, fun x hx => ?_⟩
  · rintro p' ⟨⟩
    refine ⟨hpage.load, fun hnot => absurd (hready.symm.trans hnot) (by simp), hpage.quantities,
      hpage.checkout, hpage.issued, ha, hkeeps, by simp [World.request, Net.send], fun reply hreply => ?_⟩
    exact absurd (h.net.answers _ hreply).1 (lt_irrefl _)
  · rcases hpresent with hd | hs | ⟨p', ⟨⟩, hpa⟩ | hnet
    · exact .inl hd
    · exact .inr (.inl hs)
    · exact .inr (.inr (.inl ⟨p, hp, hpa⟩))
    · rcases hnet.of_send with hnet | rfl
      · exact .inr (.inr (.inr hnet))
      · exact .inr (.inr (.inl ⟨p, hp, ha⟩))
  · rcases hx.of_send with hx | rfl
    · refine (h.locked x hx).imp_right fun hold => ⟨hold.device, ?_⟩
      rintro p' ⟨⟩
      exact hold.page p hp
    · right
      refine ⟨hkeeps, ?_⟩
      rintro p' ⟨⟩
      exact fun _ => ha

/-! #### A write ends -/

theorem draft_of_attempt (hs : s.attempt = some a) : ∃ d ∈ s.draft, d.attempt = some a := by
  refine ⟨⟨s.quantities, s.attempt⟩, ?_, hs⟩
  rw [CartState.draft, if_neg]
  · rfl
  · rintro ⟨-, hnone⟩
    rw [hs] at hnone
    cases hnone

theorem mem_wrote {d : Device} {writes : List CartState} {succeeds : Bool} {x : Draft}
    (hx : x ∈ (d.wrote s writes succeeds).draft) : x ∈ d.draft ∨ x = ⟨s.quantities, s.attempt⟩ := by
  unfold Device.wrote at hx
  dsimp only at hx
  split at hx
  · unfold CartState.draft at hx
    split at hx
    · cases hx
    · exact .inr (Option.some.inj hx).symm
  · exact .inl hx

theorem Keeps.wrote {d : Device} {writes : List CartState} (h : d.Keeps a) (hwrites : d.writes = s :: writes)
    (succeeds : Bool) : (d.wrote s writes succeeds).Keeps a := by
  have hs := h.writes s (hwrites ▸ List.mem_cons_self)
  refine ⟨?_, fun t ht => h.writes t (hwrites ▸ List.mem_cons_of_mem _ ht)⟩
  cases succeeds with
  | false => exact h.draft
  | true => exact draft_of_attempt hs

theorem SavesAt.wrote {d : Device} {writes : List CartState} (h : d.SavesAt n a)
    (hwrites : d.writes = s :: writes) (succeeds : Bool) : n + 1 ≠ (d.wrote s writes succeeds).written ∧
    (d.wrote s writes succeeds).SavesAt n a ∨
      n + 1 = (d.wrote s writes succeeds).written ∧ (d.wrote s writes true).Keeps a := by
  obtain ⟨before, after, heq, rfl, hne, hafter⟩ := h
  rw [hwrites] at heq
  cases before with
  | nil =>
    obtain rfl : s :: writes = after := heq
    refine .inr ⟨by simp [Device.wrote], draft_of_attempt (hafter s List.mem_cons_self), fun t ht => ?_⟩
    exact hafter t (List.mem_cons_of_mem _ ht)
  | cons t before =>
    obtain ⟨rfl, rfl⟩ := List.cons.inj heq
    refine .inl ⟨?_, before, after, rfl, ?_, hne, hafter⟩
    · simp only [Device.wrote, List.length_cons]
      omega
    · simp only [Device.wrote, List.length_cons]
      omega

/-- A write ends, with whatever the page does about it. -/
theorem Sound.wrote (h : w.Sound) {writes : List CartState} (hwrites : w.device.writes = s :: writes)
    {succeeds : Bool} (page : Option Page)
    (hpage : ∀ p ∈ page, p.Sound (w.device.wrote s writes succeeds) w.net)
    (hattempt : ∀ p ∈ page, ∀ a ∈ p.state.attempt, w.Present a) (hlocked : ∀ a, w.net.Alive a → w.Locked a →
      ∀ p ∈ page, p.state.ready = true → p.state.attempt = some a) :
    ({ w with device := w.device.wrote s writes succeeds, page } : World).Sound where
  net := h.net
  draft d hd := by
    rcases mem_wrote hd with hd | rfl
    · exact h.draft d hd
    · exact h.writes s (hwrites ▸ List.mem_cons_self)
  writes t ht := h.writes t (hwrites ▸ List.mem_cons_of_mem _ ht)
  page := hpage
  remembered a ha hpresent := by
    refine h.remembered a ha ?_
    rcases hpresent with ⟨d, hd, hda⟩ | ⟨t, ht, hta⟩ | ⟨p, hp, hpa⟩ | hnet
    · rcases mem_wrote hd with hd | rfl
      · exact .inl ⟨d, hd, hda⟩
      · exact .inr (.inl ⟨s, hwrites ▸ List.mem_cons_self, hda⟩)
    · exact .inr (.inl ⟨t, hwrites ▸ List.mem_cons_of_mem _ ht, hta⟩)
    · exact hattempt p hp a hpa
    · exact .inr (.inr (.inr hnet))
  locked a ha :=
    (h.locked a ha).imp_right fun hold => ⟨Keeps.wrote hold.device hwrites succeeds, hlocked a ha hold⟩

theorem Sound.write {succeeds : Bool} (h : w.Sound) (hstep : w.write succeeds = some w') : w'.Sound := by
  unfold World.write at hstep
  split at hstep
  · cases hstep
  rename_i s writes hwrites
  dsimp only at hstep
  split at hstep
  · rename_i p hp
    have hpage := h.page p hp
    have hnext : (w.device.wrote s writes succeeds).next = w.device.next := by
      simp only [Device.next, Device.wrote, hwrites, List.length_cons]
      omega
    have hload : ∀ n ∈ p.load, p.state.ready = false ∧ n = (w.device.wrote s writes succeeds).next := by
      rw [hnext]
      exact hpage.load
    have hstay : ∀ p', p'.load = p.load → p'.state = p.state → (∀ q ∈ p'.checkout, Good q) →
        (p.state.ready = false → p'.sending = none) →
        Sends (w.device.wrote s writes succeeds) w.net p.state.attempt p'.sending →
        World.Sound ⟨w.device.wrote s writes succeeds, some p', w.confirmed, w.net⟩ := by
      intro p' hload' hstate hq hunready hsends
      refine h.wrote hwrites _ ?_ ?_ ?_
      · rintro p' ⟨⟩
        exact ⟨hload'.symm ▸ hstate.symm ▸ hload, hstate.symm ▸ hunready, hstate.symm ▸ hpage.quantities, hq,
          hstate.symm ▸ hpage.issued, hstate.symm ▸ hsends⟩
      · rintro p' ⟨⟩ a ha
        exact .inr (.inr (.inl ⟨p, hp, hstate ▸ ha⟩))
      · rintro a - hlocked p' ⟨⟩
        exact hstate.symm ▸ hlocked.page p hp
    have hunmoved : Sends (w.device.wrote s writes succeeds) w.net p.state.attempt p.sending →
        World.Sound { w with device := w.device.wrote s writes succeeds } := by
      intro hsends
      have hsound := hstay p rfl rfl hpage.checkout hpage.unready hsends
      rw [← hp] at hsound
      exact hsound
    have hsends := hpage.sends
    obtain rfl := Option.some.inj hstep
    unfold resume
    rcases hsending : p.sending with _ | ⟨n, a⟩ | ⟨n, a, previous⟩ | n
    · rw [hsending] at hsends hunmoved
      exact hunmoved fun a ha => Keeps.wrote (hsends a ha) hwrites _
    · rw [hsending] at hsends hunmoved
      obtain ⟨ha, hsaves, hunsent⟩ := hsends
      have hready := h.ready hp hsending
      dsimp only
      rcases SavesAt.wrote hsaves hwrites succeeds with ⟨hne, hsaves⟩ | ⟨heq, hkeeps⟩
      · rw [if_neg hne]
        exact hunmoved ⟨ha, hsaves, hunsent⟩
      · rw [if_pos heq]
        cases succeeds with
        | true =>
          have hidle := hstay { p with sending := none } rfl rfl hpage.checkout (fun _ => rfl) fun x hx => by
            rw [ha] at hx
            cases hx
            exact hkeeps
          exact hidle.request rfl hready ha hkeeps
        | false =>
          refine h.wrote hwrites (some p.release) ?_ ?_ ?_
          · rintro p' ⟨⟩
            exact ⟨hload, fun _ => rfl, hpage.quantities, hpage.checkout, fun x hx => (by cases hx),
              fun x hx => (by cases hx)⟩
          · rintro p' ⟨⟩ x hx
            cases hx
          · rintro x hx hlocked p' ⟨⟩ -
            have heq := (hlocked.page p hp hready).symm.trans ha
            cases heq
            exact absurd hx (h.net.not_alive hunsent)
    · rw [hsending] at hsends hunmoved
      exact hunmoved ⟨hsends.1, Keeps.wrote hsends.2.1 hwrites _, hsends.2.2⟩
    · rw [hsending] at hsends hunmoved
      dsimp only
      split_ifs
      · refine hstay _ rfl rfl (fun q hq => (by cases hq)) (fun _ => rfl) fun x hx => ?_
        rw [show p.state.attempt = none from hsends] at hx
        cases hx
      · exact hunmoved hsends
  · rename_i hp
    obtain rfl := Option.some.inj hstep
    refine h.wrote hwrites _ ?_ ?_ ?_ <;> simp [hp]

/-! #### The network and the server act -/

/-- What is asked of a run: a request is refused for good only if its attempt has not become an order and no
other request for it is on the way; the server keeps a key until its attempt is forgotten; and the session
does not end while an attempt is open. -/
def Spares (w : World) : Event → Prop
  | .refuse n status conflictKey => ∀ r, w.net.requests[n]? = some r →
    uncertain r.previous (.refused status conflictKey) = true ∨ r.attempt ∉ w.net.orders ∧
      ∀ m ∈ w.net.inFlight, ∀ r', w.net.requests[m]? = some r' → r'.attempt = r.attempt → m = n
  | .expire key => ∀ a, w.Present a → a.key ≠ key
  | .signOut _ _ => ∀ a, w.net.Alive a → a ∈ w.confirmed
  | _ => True

theorem Sound.reach (h : w.Sound) {net : Net} (hnet : net.Sound) (hissued : net.issued = w.net.issued)
    (halive : ∀ x, net.Alive x → w.net.Alive x) (htravels : ∀ x, net.Travels x → w.net.Travels x)
    (hsends : ∀ attempt sending, Sends w.device w.net attempt sending → Sends w.device net attempt sending)
    (hremembered : ∀ x ∈ net.orders, w.Present x → x ∈ net.rows) : ({ w with net } : World).Sound where
  net := hnet
  draft := hissued.symm ▸ h.draft
  writes := hissued.symm ▸ h.writes
  page p hp := by
    have hpage := h.page p hp
    exact ⟨hpage.load, hpage.unready, hpage.quantities, hpage.checkout, hissued.symm ▸ hpage.issued,
      hsends _ _ hpage.sends⟩
  remembered x hx hpresent := by
    refine hremembered x hx ?_
    rcases hpresent with hd | hs | hp | hnet
    · exact .inl hd
    · exact .inr (.inl hs)
    · exact .inr (.inr (.inl hp))
    · exact .inr (.inr (.inr (htravels x hnet)))
  locked x hx := (h.locked x (halive x hx)).imp_right fun hold => ⟨hold.device, hold.page⟩

/-- One more answer, which refuses for good only what is not alive. -/
theorem Sends.of_answers {d : Device} {net net' : Net} {n : ℕ} {reply : Reply}
    (hrequests : net'.requests = net.requests) (halive : ∀ x, net'.Alive x → net.Alive x)
    (hanswers : net'.answers = net.answers ++ [(n, reply)])
    (hreply : ∀ r, net.requests[n]? = some r → reply ≠ .created → uncertain r.previous reply = false →
      ¬ net'.Alive r.attempt)
    (attempt : Option Attempt) (sending : Option Sending) (h : Sends d net attempt sending) :
    Sends d net' attempt sending := by
  rcases sending with _ | ⟨m, a⟩ | ⟨m, a, previous⟩ | m
  · exact h
  · exact ⟨h.1, h.2.1, hrequests.symm ▸ h.2.2⟩
  · obtain ⟨ha, hkeeps, hrequest, hdead⟩ := h
    refine ⟨ha, hkeeps, hrequests.symm ▸ hrequest, fun reply' hmem hcreated hcertain => ?_⟩
    rw [hanswers] at hmem
    rcases List.mem_append.1 hmem with hmem | hmem
    · exact fun hx => hdead reply' hmem hcreated hcertain (halive a hx)
    · cases List.mem_singleton.1 hmem
      exact hreply _ hrequest hcreated hcertain
  · exact h

theorem Sound.serve (h : w.Sound) {n : ℕ} {r : Request} (hn : n ∈ w.net.inFlight)
    (hr : w.net.requests[n]? = some r) : ({ w with net := w.net.serve n r.attempt } : World).Sound := by
  have htravels : w.net.Travels r.attempt := ⟨n, hn, r, hr, rfl⟩
  have hknown : r.attempt ∈ w.net.orders → r.attempt ∈ w.net.rows :=
    fun hmem => h.remembered _ hmem (.inr (.inr (.inr htravels)))
  have halive : ∀ x, (w.net.serve n r.attempt).Alive x → w.net.Alive x := fun x hx => hx.of_serve hn hr
  have hsound := h.net.serve hn hr hknown
  rcases Net.serve_eq w.net n r.attempt with ⟨reply, hreply, heq⟩ | heq <;> rw [heq] at hsound halive ⊢
  · refine h.reach hsound rfl halive (fun x hx => hx.of_answer)
      (Sends.of_answers rfl halive rfl fun r' _ hcreated hcertain => ?_) h.remembered
    rcases hreply with rfl | rfl
    · exact absurd rfl hcreated
    · simp [uncertain] at hcertain
  · refine h.reach hsound rfl halive (fun x hx => ?_)
      (Sends.of_answers rfl halive rfl fun r' _ hcreated _ => absurd rfl hcreated) fun x hx hpresent => ?_
    · have hanswer : (w.net.answer n .created).Travels x := hx
      exact hanswer.of_answer
    · rcases List.mem_append.1 hx with hx | hx
      · exact List.mem_append_left _ (h.remembered x hx hpresent)
      · exact List.mem_append_right _ hx

theorem Sound.refuse (h : w.Sound) {n status : ℕ} {conflictKey : Bool} (hn : n ∈ w.net.inFlight)
    (hspares : w.Spares (.refuse n status conflictKey)) :
    ({ w with net := w.net.answer n (.refused status conflictKey) } : World).Sound := by
  refine h.reach (h.net.answer hn fun hcreated => by cases hcreated) rfl (fun x hx => hx.of_answer)
    (fun x hx => hx.of_answer)
    (Sends.of_answers rfl (fun x hx => hx.of_answer) rfl fun r hr _ hcertain => ?_) h.remembered
  rcases hspares r hr with huncertain | ⟨hnot, honly⟩
  · rw [hcertain] at huncertain
    cases huncertain
  · rintro (hmem | ⟨m, hm, r', hr', heq⟩)
    · exact hnot hmem
    · obtain rfl := honly m (List.mem_of_mem_erase hm) r' hr' heq
      exact h.net.inFlight.1.not_mem_erase hm

theorem Sound.expire (h : w.Sound) {key : UUID} (hspares : w.Spares (.expire key)) :
    ({ w with net := { w.net with rows := w.net.rows.filter fun r => r.key ≠ key } } : World).Sound := by
  refine h.reach ⟨h.net.keys, h.net.wellFormed, h.net.requests, h.net.inFlight, h.net.answers,
    fun x hx => h.net.rows x (List.mem_of_mem_filter hx), h.net.created, h.net.orders,
    h.net.nodup⟩ rfl (fun x hx => hx) (fun x hx => hx) (fun attempt sending hsends => ?_)
      fun x hx hpresent => ?_
  · rcases sending with _ | ⟨m, a⟩ | ⟨m, a, previous⟩ | m <;> exact hsends
  · exact List.mem_filter.2 ⟨h.remembered x hx hpresent, decide_eq_true (hspares x hpresent)⟩

/-! ### Every run -/

theorem onPage_eq_some {guard : Page → Bool} {f : Page → World} (h : w.onPage guard f = some w') :
    ∃ p, w.page = some p ∧ guard p = true ∧ w' = f p := by
  obtain ⟨p, hp, h⟩ := Option.bind_eq_some_iff.1 h
  obtain ⟨hguard, h⟩ := Option.ite_none_right_eq_some.1 h
  exact ⟨p, hp, hguard, (Option.some.inj h).symm⟩

theorem Sound.step {e : Event} (h : w.Sound) (hspares : w.Spares e)
    (hstep : w.step e = some w') : w'.Sound := by
  cases e with
  | closeTab =>
    cases hstep
    exact h.leave fun s hs => absurd hs List.not_mem_nil
  | signOut purged late =>
    cases hstep
    exact h.signOut hspares purged late
  | mount =>
    obtain ⟨-, hstep⟩ := Option.ite_none_right_eq_some.1 hstep
    cases hstep
    exact h.mount
  | unmount =>
    cases hstep
    exact h.leave fun s hs => hs
  | loaded =>
    obtain ⟨p, hp, hload, rfl⟩ := onPage_eq_some hstep
    exact h.loaded hp hload
  | loadFails =>
    obtain ⟨p, hp, -, rfl⟩ := onPage_eq_some hstep
    have hpage := h.page p hp
    exact h.edit hp ⟨fun n hn => (by cases hn), hpage.unready, hpage.quantities, hpage.checkout,
      hpage.issued, hpage.sends⟩
      rfl rfl
  | retryDraft =>
    obtain ⟨p, hp, hguard, rfl⟩ := onPage_eq_some hstep
    have hpage := h.page p hp
    obtain ⟨-, hready⟩ := of_decide_eq_true hguard
    refine h.edit hp ⟨?_, hpage.unready, hpage.quantities, hpage.checkout, hpage.issued, hpage.sends⟩ rfl rfl
    rintro n ⟨⟩
    exact ⟨hready, rfl⟩
  | effect =>
    obtain ⟨p, hp, hguard, rfl⟩ := onPage_eq_some hstep
    exact h.effect hp (of_decide_eq_true hguard).2
  | write succeeds => exact h.write hstep
  | change id quantity =>
    obtain ⟨p, hp, -, rfl⟩ := onPage_eq_some hstep
    exact h.setQuantities hp ((h.page p hp).quantities.changed id quantity)
  | add id minimum =>
    obtain ⟨p, hp, -, rfl⟩ := onPage_eq_some hstep
    exact h.setQuantities hp ((h.page p hp).quantities.added id minimum)
  | clear =>
    obtain ⟨p, hp, -, rfl⟩ := onPage_eq_some hstep
    exact h.setQuantities hp .nil
  | dropUnavailable ids =>
    obtain ⟨p, hp, -, rfl⟩ := onPage_eq_some hstep
    exact h.setQuantities hp ((h.page p hp).quantities.filter _)
  | openCheckout resolved =>
    obtain ⟨p, hp, -, rfl⟩ := onPage_eq_some hstep
    have hpage := h.page p hp
    refine h.edit hp ⟨hpage.load, hpage.unready, hpage.quantities, ?_, hpage.issued, hpage.sends⟩ rfl rfl
    rintro q ⟨⟩
    exact hpage.quantities.buildCart resolved
  | closeCheckout =>
    obtain ⟨p, hp, -, rfl⟩ := onPage_eq_some hstep
    have hpage := h.page p hp
    exact h.edit hp ⟨hpage.load, hpage.unready, hpage.quantities, fun q hq => (by cases hq),
      hpage.issued, hpage.sends⟩
      rfl rfl
  | send resolved key =>
    obtain ⟨p, hp, hstep⟩ := Option.bind_eq_some_iff.1 hstep
    obtain ⟨snapshot, hsnapshot, hstep⟩ := Option.bind_eq_some_iff.1 hstep
    have hpage := h.page p hp
    obtain ⟨⟨hready, hsending⟩, hstep⟩ := Option.ite_none_right_eq_some.1 hstep
    split at hstep
    · rename_i a ha
      cases hstep
      have hkeeps : w.device.Keeps a := by
        have hsends := hpage.sends
        rw [hsending] at hsends
        exact hsends a ha
      have hopen : (w.setPage { p with unsaved := true }).Sound :=
        h.edit hp ⟨hpage.load, hpage.unready, hpage.quantities, hpage.checkout, hpage.issued,
          hpage.sends⟩ rfl rfl
      exact hopen.request rfl hready ha hkeeps
    · rename_i hnone
      obtain ⟨⟨hne, -, hkey⟩, hstep⟩ := Option.ite_none_right_eq_some.1 hstep
      cases hstep
      exact h.submit hp hready hnone (hpage.checkout snapshot hsnapshot) hne hkey
  | receive reply =>
    obtain ⟨p, hp, hstep⟩ := Option.bind_eq_some_iff.1 hstep
    have hpage := h.page p hp
    split at hstep
    · rename_i n a previous hsending
      obtain ⟨hanswer, hstep⟩ := Option.ite_none_right_eq_some.1 hstep
      cases hstep
      have hready := h.ready hp hsending
      have hsends := hpage.sends
      rw [hsending] at hsends
      obtain ⟨ha, hkeeps, -, hdead⟩ := hsends
      unfold receive
      split_ifs with hcreated huncertain
      · exact h.confirm hp hready ha
      · refine h.stop hp (fun x hx => ?_) hpage.checkout
        rw [ha] at hx
        cases hx
        exact hkeeps
      · exact h.release hp hready ha (hdead reply hanswer hcreated (Bool.not_eq_true _ ▸ huncertain))
    · cases hstep
  | noAnswer =>
    obtain ⟨p, hp, hstep⟩ := Option.bind_eq_some_iff.1 hstep
    have hpage := h.page p hp
    split at hstep
    · rename_i n a previous hsending
      cases hstep
      have hsends := hpage.sends
      rw [hsending] at hsends
      refine h.stop hp (fun x hx => ?_) hpage.checkout
      rw [hsends.1] at hx
      cases hx
      exact hsends.2.1
    · cases hstep
  | serve n =>
    obtain ⟨hn, hstep⟩ := Option.ite_none_right_eq_some.1 hstep
    obtain ⟨r, hr, rfl⟩ := Option.map_eq_some_iff.1 hstep
    exact h.serve hn hr
  | refuse n status conflictKey =>
    obtain ⟨hn, hstep⟩ := Option.ite_none_right_eq_some.1 hstep
    cases hstep
    exact h.refuse hn hspares
  | expire key =>
    cases hstep
    exact h.expire hspares

/-- Every step of the run spares the attempts. -/
def SparesAll (w : World) : List Event → Prop
  | [] => True
  | e :: es => w.Spares e ∧ ∀ w', w.step e = some w' → w'.SparesAll es

/-- Neither refuses nor forgets anything, and does not end the session. -/
def calm : Event → Bool
  | .refuse _ _ _ | .expire _ | .signOut _ _ => false
  | _ => true

theorem sparesAll_of_calm {es : List Event} (h : es.all calm = true) : w.SparesAll es := by
  induction es generalizing w with
  | nil => trivial
  | cons e es ih =>
    rw [List.all_cons, Bool.and_eq_true] at h
    refine ⟨?_, fun w' _ => ih h.2⟩
    cases e <;> first | trivial | exact absurd h.1 (by simp [calm])

theorem Sound.run {es : List Event} (h : w.Sound) (hspares : w.SparesAll es)
    (hrun : w.run es = some w') : w'.Sound := by
  induction es generalizing w with
  | nil =>
    cases hrun
    exact h
  | cons e es ih =>
    unfold World.run at hrun
    rw [List.foldlM_cons] at hrun
    obtain ⟨w₁, hstep, hrest⟩ := Option.bind_eq_some_iff.1 hrun
    exact ih (h.step hspares.1 hstep) (hspares.2 w₁ hstep) hrest

theorem Locked.eq (ha : w.Locked a) (hx : w.Locked x) : a = x := by
  obtain ⟨d, hd, hda⟩ := ha.device.draft
  obtain ⟨d', hd', hdx⟩ := hx.device.draft
  cases hd.symm.trans hd'
  exact Option.some.inj (hda.symm.trans hdx)

end World

open World

variable {w : World} {es : List Event}

theorem run_cons {e : Event} {w₁ : World} (h : w.step e = some w₁) : w.run (e :: es) = w₁.run es := by
  unfold World.run
  rw [List.foldlM_cons, h]
  rfl

/-- `send` asks again for an attempt that is there. -/
theorem step_send {p : Page} {a : Attempt} {resolved : List UUID} {key : UUID} (hp : w.page = some p)
    (hready : p.state.ready = true) (hattempt : p.state.attempt = some a) (hsending : p.sending = none)
    (hcheckout : p.checkout ≠ none) :
    w.step (.send resolved key) = some (w.request { p with unsaved := true } a true) := by
  obtain ⟨snapshot, hsnapshot⟩ := Option.ne_none_iff_exists'.1 hcheckout
  simp [World.step, hp, hsnapshot, hready, hsending, hattempt]

theorem step_serve {n : ℕ} {r : Request} (hn : n ∈ w.net.inFlight) (hr : w.net.requests[n]? = some r) :
    w.step (.serve n) = some { w with net := w.net.serve n r.attempt } := by
  simp only [World.step, if_pos hn, hr, Option.map_some]

theorem step_receive {p : Page} {n : ℕ} {a : Attempt} {previous : Bool} {reply : Reply} (hp : w.page = some p)
    (hsending : p.sending = some (.requested n a previous)) (hanswer : (n, reply) ∈ w.net.answers) :
    w.step (.receive reply) = some (w.receive p a previous reply) := by
  simp [World.step, hp, hsending, hanswer]

/-- How the answer to a retry leaves the customer: with the order confirmed and an empty cart, with the same
attempt to ask for once more, or free, with an attempt of which nothing can become an order. -/
def World.Settles (w : World) (a : Attempt) (reply : Reply) : Prop :=
  if reply = .created then a ∈ w.net.orders ∧ a ∈ w.confirmed ∧ ∀ p ∈ w.page, p.state = .cleared
  else if uncertain true reply then ∀ p ∈ w.page, p.state.ready = true ∧
    p.state.attempt = some a ∧ p.sending = none
  else ¬ w.net.Alive a ∧ ∀ p ∈ w.page, p.state.attempt = none ∧ p.sending = none

theorem World.Sound.receive_settles {p : Page} {n : ℕ} {a : Attempt} {reply : Reply} (h : w.Sound)
    (hp : w.page = some p) (hsending : p.sending = some (.requested n a true))
    (hanswer : (n, reply) ∈ w.net.answers) : (w.receive p a true reply).Settles a reply := by
  have hsends := (h.page p hp).sends
  rw [hsending] at hsends
  obtain ⟨ha, -, hrequest, hdead⟩ := hsends
  have hready := h.ready hp hsending
  unfold receive Settles
  split_ifs with hcreated huncertain
  · subst hcreated
    refine ⟨h.net.created n _ hanswer hrequest, List.mem_append_right _ (List.mem_singleton.2 rfl), ?_⟩
    rintro p' ⟨⟩
    rfl
  · rintro p' ⟨⟩
    exact ⟨hready, ha, rfl⟩
  · refine ⟨hdead reply hanswer hcreated (Bool.not_eq_true _ ▸ huncertain), ?_⟩
    rintro p' ⟨⟩
    exact ⟨rfl, rfl⟩

namespace Snack

/-- The order is placed, but the answer does not arrive; the tab is closed and opened again. -/
def interrupted : List Event :=
  [.mount, .loaded, .add 7 false, .openCheckout [7], .send [7] 100, .write true, .serve 0, .noAnswer,
    .closeTab, .mount, .loaded, .openCheckout []]

def cola : Attempt := ⟨100, [⟨7, 1⟩]⟩

def reopened : Page := ⟨none, ⟨true, [⟨7, 1⟩], some cola⟩, true, some [], none⟩

theorem interrupted_run : ∃ w, World.new.run interrupted = some w ∧ w.page = some reopened ∧
    w.net.orders = [cola] ∧ w.confirmed = [] :=
  ⟨_, rfl, rfl, rfl, rfl⟩

theorem interrupted_spares : World.new.SparesAll interrupted := sparesAll_of_calm rfl

/-- A retry that the rate limit refuses in front of the keys lets the customer order twice. -/
example : ∃ w, World.new.run (interrupted ++
    [.send [] 0, .refuse 1 429 false, .receive (.refused 429 false), .openCheckout [7], .send [7] 101,
      .write true, .serve 2]) = some w ∧ w.net.orders = [cola, ⟨101, [⟨7, 1⟩]⟩] ∧ w.confirmed = [] :=
  ⟨_, rfl, rfl, rfl⟩

/-- So does the end of the session, which purges the draft with the attempt. -/
example : ∃ w, World.new.run (interrupted ++
    [.send [] 0, .refuse 1 401 false, .signOut true false, .mount, .loaded, .add 7 false, .openCheckout [7],
      .send [7] 101, .write true, .serve 2]) = some w ∧ w.net.orders = [cola, ⟨101, [⟨7, 1⟩]⟩] ∧
      w.confirmed = [] :=
  ⟨_, rfl, rfl, rfl⟩

end Snack

end GManager.Cart
