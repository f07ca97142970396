import GManager.Orders

/-!
# Orders side by side

Any number of transactions of the shop run at once. Their writes are over the rows that they have
read, so an order keeps what was ordered and at which price, moves along the transitions only, and
is at any time what the audit and the outbox tell: the rules of `changeStatus`, applied to the order
as it was created, lead to it.
-/

namespace GManager

/-! ### What an order keeps -/

def OrderStatus.Next (a b : OrderStatus) : Prop := a.allows b = true

def OrderStatus.final (status : OrderStatus) : Prop := ∀ target, status.allows target = false

namespace Order

/-- `o'` is the same order at a later time. -/
structure Later (o o' : Order) : Prop where
  id : o'.id = o.id
  customer : o'.customerId = o.customerId
  items : o'.items = o.items
  total : o'.totalPrice = o.totalPrice
  version : o.version ≤ o'.version
  same : o'.version = o.version → o' = o
  handledBy : ∀ u, o.handledBy = some u → o'.handledBy = some u
  status : Relation.ReflTransGen OrderStatus.Next o.status o'.status
  final : o.status.final → o' = o

variable {o o' o'' : Order} {actor : AuthenticatedUser} {target : OrderStatus}

theorem Later.refl (o : Order) : o.Later o :=
  ⟨rfl, rfl, rfl, rfl, le_rfl, fun _ => rfl, fun _ h => h, .refl, fun _ => rfl⟩

theorem Later.trans (h : o.Later o') (h' : o'.Later o'') : o.Later o'' where
  id := h'.id.trans h.id
  customer := h'.customer.trans h.customer
  items := h'.items.trans h.items
  total := h'.total.trans h.total
  version := h.version.trans h'.version
  same := by
    intro hsame
    have hle := h.version
    have hle' := h'.version
    have heq := h.same (by omega)
    exact (h'.same (by omega)).trans heq
  handledBy u hu := h'.handledBy u (h.handledBy u hu)
  status := h.status.trans h'.status
  final hfinal := by
    obtain rfl := h.final hfinal
    exact h'.final hfinal

/-- A change of status that is written makes a later version of the order. -/
theorem later_change (ho : o.Sound) (h : o.change actor target = .ok o') : o.Later o'.raise := by
  obtain ⟨hallows, -, rfl⟩ := change_eq_ok.1 h
  refine ⟨rfl, rfl, rfl, rfl, Nat.le_succ _, fun hsame => ?_, fun u hu => ?_,
    .single hallows, fun hfinal => ?_⟩
  · exact absurd hsame (Nat.succ_ne_self _)
  · show (if o.status = .created ∧ target = .inProgress then some actor.id else o.handledBy) = some u
    rw [if_neg, hu]
    rintro ⟨hstatus, -⟩
    rw [ho.waiting hstatus] at hu
    cases hu
  · rw [hfinal target] at hallows
    cases hallows

/-! ### What the audit tells -/

/-- The order as it was created. -/
def fresh (o : Order) : Order := { o with handledBy := none, status := .created, version := 0 }

/-- The change that an entry of the audit tells of. -/
def replay (o : Order) (e : OrderAudit) : Option Order :=
  if e.previous = o.status then ((o.change e.actor e.status).toOption).map raise else none

def retrace (o : Order) (es : List OrderAudit) : Option Order := es.foldlM replay o.fresh

theorem fresh_change (h : o.change actor target = .ok o') : o'.raise.fresh = o.fresh := by
  obtain ⟨-, -, rfl⟩ := change_eq_ok.1 h
  rfl

theorem replay_change (h : o.change actor target = .ok o') {id : UUID} :
    o.replay ⟨actor, id, o.status, o'.status⟩ = some o'.raise := by
  have hstatus : o'.status = target := by
    obtain ⟨-, -, rfl⟩ := change_eq_ok.1 h
    rfl
  rw [replay, if_pos rfl, hstatus, h]
  rfl

theorem retrace_change (h : o.change actor target = .ok o') {es : List OrderAudit}
    (hes : o.retrace es = some o) {id : UUID} :
    o'.raise.retrace (es ++ [⟨actor, id, o.status, o'.status⟩]) = some o'.raise := by
  rw [retrace, fresh_change h, List.foldlM_append]
  rw [retrace] at hes
  rw [hes]
  simpa using replay_change h

theorem foldlM_replay_version {es : List OrderAudit} (h : es.foldlM replay o = some o') :
    o'.version = o.version + es.length := by
  induction es generalizing o with
  | nil =>
    cases h
    rfl
  | cons e es ih =>
    rw [List.foldlM_cons] at h
    obtain ⟨o₁, hreplay, h⟩ := Option.bind_eq_some_iff.1 h
    have hversion : o₁.version = o.version + 1 := by
      unfold replay at hreplay
      split at hreplay
      · obtain ⟨o₂, hchange, rfl⟩ := Option.map_eq_some_iff.1 hreplay
        cases hc : o.change e.actor e.status with
        | error f =>
          rw [hc] at hchange
          cases hchange
        | ok o₃ =>
          rw [hc] at hchange
          cases hchange
          obtain ⟨-, -, rfl⟩ := change_eq_ok.1 hc
          rfl
      · cases hreplay
    rw [ih h, hversion, List.length_cons]
    omega

end Order

/-- The event beside an entry of the audit. -/
def OrderAudit.event (e : OrderAudit) : OrderEvent := ⟨e.orderId, some e.previous, e.status⟩

namespace Shop

variable {s s' s'' : Shop} {o o' : Order} {i i' : CatalogRow}

def auditOf (s : Shop) (id : UUID) : List OrderAudit := s.audit.filter fun e => e.orderId = id

def eventsOf (s : Shop) (id : UUID) : List OrderEvent := s.outbox.filter fun e => e.orderId = id

/-- An order is sound, and is what is written down about it. -/
structure Told (s : Shop) (o : Order) : Prop where
  sound : o.Sound
  audit : o.retrace (s.auditOf o.id) = some o
  events : s.eventsOf o.id = ⟨o.id, none, .created⟩ :: (s.auditOf o.id).map OrderAudit.event

/-- There is one entry for each version. -/
theorem Told.version (h : s.Told o) : o.version = (s.auditOf o.id).length := by
  simpa [Order.fresh] using Order.foldlM_replay_version h.audit

structure Sound (s : Shop) : Prop where
  catalog : ∀ i ∈ s.catalog, i.Sound
  orders : ∀ o ∈ s.orders, s.Told o
  audited : ∀ e ∈ s.audit, ∃ o ∈ s.orders, o.id = e.orderId
  sent : ∀ e ∈ s.outbox, ∃ o ∈ s.orders, o.id = e.orderId

/-- `s'` comes after `s`: nothing is lost, and no version of a row is used twice. -/
structure Later (s s' : Shop) : Prop where
  orders : ∀ o ∈ s.orders, ∃ o' ∈ s'.orders, o.Later o'
  catalog : ∀ i ∈ s.catalog, ∃ i' ∈ s'.catalog, i'.id = i.id ∧ i.version ≤ i'.version ∧
    (i'.version = i.version → i' = i)
  audit : s.audit <+: s'.audit
  outbox : s.outbox <+: s'.outbox

instance : IsPreorder Shop Later where
  refl s := ⟨fun o ho => ⟨o, ho, .refl o⟩, fun i hi => ⟨i, hi, rfl, le_rfl, fun _ => rfl⟩,
    List.prefix_rfl, List.prefix_rfl⟩
  trans s s' s'' h h' := by
    refine ⟨fun o ho => ?_, fun i hi => ?_, h.audit.trans h'.audit, h.outbox.trans h'.outbox⟩
    · obtain ⟨o', ho', hlater⟩ := h.orders o ho
      obtain ⟨o'', ho'', hlater'⟩ := h'.orders o' ho'
      exact ⟨o'', ho'', hlater.trans hlater'⟩
    · obtain ⟨i', hi', hid, hle, hsame⟩ := h.catalog i hi
      obtain ⟨i'', hi'', hid', hle', hsame'⟩ := h'.catalog i' hi'
      refine ⟨i'', hi'', hid'.trans hid, hle.trans hle', fun heq => ?_⟩
      exact (hsame' (by omega)).trans (hsame (by omega))

/-- An order that was read is a copy of its row. -/
theorem Later.copy_order (h : s.Later s') (ho : o ∈ s.orders) : Table.Copy Order.version s'.orders o := by
  obtain ⟨o', ho', hlater⟩ := h.orders o ho
  intro r hr hid
  obtain rfl := Table.eq_of_key hr ho' (hid.trans hlater.id.symm)
  exact ⟨hlater.version, hlater.same⟩

theorem Later.copy_item (h : s.Later s') (hi : i ∈ s.catalog) :
    Table.Copy CatalogRow.version s'.catalog i := by
  obtain ⟨i', hi', hid, hle, hsame⟩ := h.catalog i hi
  intro r hr hkey
  obtain rfl := Table.eq_of_key hr hi' (hkey.trans hid.symm)
  exact ⟨hle, hsame⟩

/-! ### Writes -/

theorem Told.congr (h : s.Told o) (haudit : s'.auditOf o.id = s.auditOf o.id)
    (hevents : s'.eventsOf o.id = s.eventsOf o.id) : s'.Told o :=
  ⟨h.sound, haudit ▸ h.audit, hevents.trans (haudit ▸ h.events)⟩

theorem saveItem_good (hs : s.Sound) (hcopy : Table.Copy CatalogRow.version s.catalog i)
    (hedit : i.Sound → i'.Sound ∧ i'.id = i.id ∧ i'.version = i.version) (h : s.saveItem i i' = some s') :
    s'.Sound ∧ s.Later s' := by
  obtain ⟨catalog, hflush, rfl⟩ := Option.map_eq_some_iff.1 h
  obtain ⟨hi, ⟨rfl, -⟩ | rfl⟩ := Table.flush_eq_some hflush hcopy
  · exact ⟨⟨hs.catalog, fun o ho => (hs.orders o ho).congr rfl rfl, hs.audited, hs.sent⟩,
      Std.Refl.refl (r := Later) s⟩
  obtain ⟨hsound, hid, hversion⟩ := hedit (hs.catalog i hi)
  have hkey : CatalogRow.id i'.raise = i.id := hid
  have hmem : ∀ x, x ∈ s.catalog.save i'.raise ↔ x = i'.raise ∨ x ∈ s.catalog ∧ x.id ≠ i.id := fun x =>
    Table.mem_save_of_mem hi hkey
  refine ⟨⟨fun x hx => ?_, fun o ho => (hs.orders o ho).congr rfl rfl, hs.audited, hs.sent⟩,
    ⟨fun o ho => ⟨o, ho, .refl o⟩, fun x hx => ?_, List.prefix_rfl, List.prefix_rfl⟩⟩
  · rcases (hmem x).1 hx with rfl | ⟨hx, -⟩
    · exact hsound.raise
    · exact hs.catalog x hx
  · by_cases hxi : x.id = i.id
    · obtain rfl := Table.eq_of_key hx hi hxi
      have hlt : i'.raise.version = x.version + 1 := congrArg (· + 1) hversion
      exact ⟨i'.raise, (hmem _).2 (.inl rfl), hkey, by omega, fun heq => by omega⟩
    · exact ⟨x, (hmem x).2 (.inr ⟨hx, hxi⟩), rfl, le_rfl, fun _ => rfl⟩

theorem insertItem_good {catalog : Table CatalogRow.id} (hs : s.Sound) (hi : i.Sound)
    (h : s.catalog.insert i = some catalog) : ({ s with catalog } : Shop).Sound ∧
    s.Later { s with catalog } := by
  refine ⟨⟨fun x hx => ?_, fun o ho => (hs.orders o ho).congr rfl rfl, hs.audited, hs.sent⟩,
    ⟨fun o ho => ⟨o, ho, .refl o⟩, fun x hx => ⟨x, ?_, rfl, le_rfl, fun _ => rfl⟩,
      List.prefix_rfl, List.prefix_rfl⟩⟩
  · rcases (Table.mem_insert h).1 hx with hx | rfl
    · exact hs.catalog x hx
    · exact hi
  · exact (Table.mem_insert h).2 (.inl hx)

theorem auditOf_eq_nil (hs : s.Sound) {id : UUID} (hid : ∀ o ∈ s.orders, o.id ≠ id) :
    s.auditOf id = [] ∧ s.eventsOf id = [] := by
  refine ⟨List.filter_eq_nil_iff.2 fun e he => ?_, List.filter_eq_nil_iff.2 fun e he => ?_⟩
  · obtain ⟨o, ho, hoe⟩ := hs.audited e he
    simpa [← hoe] using hid o ho
  · obtain ⟨o, ho, hoe⟩ := hs.sent e he
    simpa [← hoe] using hid o ho

/-- A new order is told by its first event. -/
theorem placeOrder_good (hs : s.Sound) (ho : o.Sound) (hfresh : o.fresh = o) (h : s.placeOrder o = some s') :
    s'.Sound ∧ s.Later s' := by
  unfold placeOrder at h
  split at h
  swap
  · cases h
  obtain ⟨orders, hinsert, rfl⟩ := Option.map_eq_some_iff.1 h
  have hnew := (Table.insert_eq_some.1 hinsert).1
  have hmem : ∀ x, x ∈ orders ↔ x ∈ s.orders ∨ x = o := fun x => Table.mem_insert hinsert
  obtain ⟨haudit, hevents⟩ := auditOf_eq_nil hs hnew
  have hstatus : o.status = .created := congrArg Order.status hfresh.symm
  have hgrow : ∀ id, id ≠ o.id →
    (s.outbox ++ [(⟨o.id, none, o.status⟩ : OrderEvent)]).filter (fun e => e.orderId = id) =
      s.eventsOf id := by
    intro id hid
    rw [List.filter_append, eventsOf]
    simp [hid.symm]
  refine ⟨⟨hs.catalog, fun x hx => ?_, fun e he => ?_, fun e he => ?_⟩,
    ⟨fun x hx => ⟨x, (hmem x).2 (.inl hx), .refl x⟩, fun i hi => ⟨i, hi, rfl, le_rfl, fun _ => rfl⟩,
      List.prefix_rfl, List.prefix_append _ _⟩⟩
  · rcases (hmem x).1 hx with hx | rfl
    · exact (hs.orders x hx).congr rfl (hgrow x.id (hnew x hx))
    · refine ⟨ho, ?_, ?_⟩
      · show x.retrace (s.auditOf x.id) = some x
        rw [haudit, Order.retrace, hfresh]
        rfl
      · show (s.outbox ++ [(⟨x.id, none, x.status⟩ : OrderEvent)]).filter _ = _ :: (s.auditOf x.id).map _
        rw [List.filter_append, haudit, show s.outbox.filter _ = [] from hevents, hstatus]
        simp
  · obtain ⟨x, hx, hxe⟩ := hs.audited e he
    exact ⟨x, (hmem x).2 (.inl hx), hxe⟩
  · rcases List.mem_append.1 he with he | he
    · obtain ⟨x, hx, hxe⟩ := hs.sent e he
      exact ⟨x, (hmem x).2 (.inl hx), hxe⟩
    · obtain rfl := List.mem_singleton.1 he
      exact ⟨o, (hmem o).2 (.inr rfl), rfl⟩

/-- A change of status is told by one more entry, and by one more event. -/
theorem saveStatus_good {actor : AuthenticatedUser} {target : OrderStatus} (hs : s.Sound)
    (hcopy : Table.Copy Order.version s.orders o) (hchange : o.change actor target = .ok o')
    (h : s.saveStatus actor o o' = some s') : s'.Sound ∧ s.Later s' := by
  obtain ⟨orders, hflush, rfl⟩ := Option.map_eq_some_iff.1 h
  obtain ⟨ho, ⟨-, rfl⟩ | rfl⟩ := Table.flush_eq_some hflush hcopy
  · obtain ⟨hallows, -, hsame⟩ := Order.change_eq_ok.1 hchange
    exact absurd (congrArg Order.status hsame).symm (OrderStatus.ne_of_allows hallows)
  have hlater := Order.later_change (hs.orders o ho).sound hchange
  have hmem : ∀ x, x ∈ s.orders.save o'.raise ↔ x = o'.raise ∨ x ∈ s.orders ∧ x.id ≠ o.id := fun x =>
    Table.mem_save_of_mem ho hlater.id
  have haudit : ∀ id, (s.audit ++ [(⟨actor, o.id, o.status, o'.status⟩ : OrderAudit)]).filter
    (fun e => e.orderId = id) =
      s.auditOf id ++ if o.id = id then [⟨actor, o.id, o.status, o'.status⟩] else [] := by
    intro id
    rw [List.filter_append, auditOf]
    split_ifs with hid <;> simp [hid]
  have hevents : ∀ id, (s.outbox ++ [(⟨o.id, some o.status, o'.status⟩ : OrderEvent)]).filter
    (fun e => e.orderId = id) =
      s.eventsOf id ++ if o.id = id then [⟨o.id, some o.status, o'.status⟩] else [] := by
    intro id
    rw [List.filter_append, eventsOf]
    split_ifs with hid <;> simp [hid]
  have hfind : ∀ id, (∃ x ∈ s.orders, x.id = id) → ∃ x ∈ s.orders.save o'.raise, x.id = id := by
    rintro id ⟨x, hx, rfl⟩
    by_cases hxo : x.id = o.id
    · exact ⟨o'.raise, (hmem _).2 (.inl rfl), hlater.id.trans hxo.symm⟩
    · exact ⟨x, (hmem x).2 (.inr ⟨hx, hxo⟩), rfl⟩
  refine ⟨⟨hs.catalog, fun x hx => ?_, fun e he => hfind _ ?_, fun e he => hfind _ ?_⟩, ⟨fun x hx => ?_,
    fun i hi => ⟨i, hi, rfl, le_rfl, fun _ => rfl⟩, List.prefix_append _ _, List.prefix_append _ _⟩⟩
  · rcases (hmem x).1 hx with rfl | ⟨hx, hne⟩
    · have htold := hs.orders o ho
      have hid : o'.raise.id = o.id := hlater.id
      refine ⟨?_, ?_, ?_⟩
      · have hsound := Order.change_sound htold.sound hchange
        exact ⟨hsound.nonempty, hsound.bounded, hsound.products, hsound.lines, hsound.total,
          hsound.waiting, hsound.handled⟩
      · rw [auditOf, haudit, hid, if_pos rfl]
        exact Order.retrace_change hchange htold.audit
      · rw [eventsOf, auditOf, haudit, hevents, hid, if_pos rfl, if_pos rfl, htold.events, List.map_append]
        rfl
    · refine (hs.orders x hx).congr ?_ ?_
      · rw [auditOf, haudit, if_neg (Ne.symm hne), List.append_nil]
      · rw [eventsOf, hevents, if_neg (Ne.symm hne), List.append_nil]
  · rcases List.mem_append.1 he with he | he
    · exact hs.audited e he
    · obtain rfl := List.mem_singleton.1 he
      exact ⟨o, ho, rfl⟩
  · rcases List.mem_append.1 he with he | he
    · exact hs.sent e he
    · obtain rfl := List.mem_singleton.1 he
      exact ⟨o, ho, rfl⟩
  · by_cases hxo : x.id = o.id
    · obtain rfl := Table.eq_of_key hx ho hxo
      exact ⟨o'.raise, (hmem _).2 (.inl rfl), hlater⟩
    · exact ⟨x, (hmem x).2 (.inr ⟨hx, hxo⟩), .refl x⟩

end Shop

/-! ### The transactions are good -/

section code

variable {s : Shop}

/-- What the transactions of the shop keep. -/
abbrev Transaction.Kept (t : Transaction Shop) (view : Shop) : Prop :=
  t.Good (fun _ _ => True) Shop.Sound Shop.Later view

theorem saveItem_kept {i i' : CatalogRow} (hi : i ∈ s.catalog)
    (hedit : i.Sound → i'.Sound ∧ i'.id = i.id ∧ i'.version = i.version) :
    (Transaction.write (·.saveItem i i') .done).Kept s := by
  intro now s' hs hlater _ h
  obtain ⟨hsound, hnext⟩ := Shop.saveItem_good hs (hlater.copy_item hi) hedit h
  exact ⟨hsound, hnext, trivial⟩

/-- A write to the resources, behind that of their service. -/
theorem saveService_kept {i i' : CatalogRow} {f : Table ResourceRow.id → Option (Table ResourceRow.id)}
    (hi : i ∈ s.catalog) (h : i.requirePhysicalResource = .ok i') :
    (Transaction.write (fun s => (s.saveItem i i').bind fun s => (f s.resources).map fun resources =>
      { s with resources }) .done).Kept s := by
  intro now s' hs hlater _ hwrite
  obtain ⟨s₁, hsave, hwrite⟩ := Option.bind_eq_some_iff.1 hwrite
  obtain ⟨resources, -, rfl⟩ := Option.map_eq_some_iff.1 hwrite
  obtain ⟨hs₁, hnext⟩ := Shop.saveItem_good hs (hlater.copy_item hi)
    (fun hsound => CatalogRow.requirePhysicalResource_sound hsound h) hsave
  exact ⟨⟨hs₁.catalog, fun o ho => (hs₁.orders o ho).congr rfl rfl, hs₁.audited, hs₁.sent⟩,
    ⟨hnext.orders, hnext.catalog, hnext.audit, hnext.outbox⟩, trivial⟩

theorem changeItem_kept {actor : AuthenticatedUser} {id : UUID}
    {f : Shop → CatalogRow → Except Failure CatalogRow}
    (hf : ∀ s i i', i.Sound → f s i = .ok i' → i'.Sound ∧ i'.id = i.id ∧ i'.version = i.version) :
    (changeItem actor id f).Kept s := by
  refine .attempt fun read a _ _ h => ?_
  obtain ⟨_, -, h⟩ := bind_eq_ok.1 h
  obtain ⟨i, hi, h⟩ := bind_eq_ok.1 h
  obtain ⟨i', hi', h⟩ := bind_eq_ok.1 h
  cases h
  exact saveItem_kept (Shop.item_eq_ok.1 hi).1 fun hsound => hf read i i' hsound hi'

/-- The lines that were read so far are those of the first products. -/
structure Lines (rs : List OrderItemRequest) (items : List OrderItem) : Prop where
  products : items.map (·.productId) = rs.map (·.productId)
  lines : ∀ i ∈ items, 1 ≤ i.quantity ∧ i.quantity ≤ 999 ∧ 0 < i.unitPrice ∧
    i.lineTotal = i.unitPrice * i.quantity

theorem Lines.append {rs : List OrderItemRequest} {items : List OrderItem} {r : OrderItemRequest}
    {item : OrderItem} (h : Lines rs items) (hs : s.Sound) (hline : s.line r = .ok item) :
    Lines (rs ++ [r]) (items ++ [item]) := by
  obtain ⟨hproduct, hquantity, hprice, htotal, -⟩ := Shop.line_spec hs.catalog hline
  refine ⟨?_, ?_⟩
  · rw [List.map_append, List.map_append, h.products, List.map_singleton, List.map_singleton, hproduct]
  · intro i hi
    rcases List.mem_append.1 hi with hi | hi
    · exact h.lines i hi
    · obtain rfl := List.mem_singleton.1 hi
      exact ⟨hquantity ▸ r.positive, hquantity ▸ r.bounded, hprice, htotal⟩

theorem createOrderLines_kept {finish : List OrderItem → Order} (read rest : List OrderItemRequest)
    {items : List OrderItem} (hfinish : ∀ items, Lines (read ++ rest)
      items → (finish items).Sound ∧ (finish items).fresh = finish items)
    (hlines : Lines read items) : (createOrderLines finish rest items).Kept s := by
  induction rest generalizing read items s with
  | nil =>
    rw [List.append_nil] at hfinish
    obtain ⟨hsound, hfresh⟩ := hfinish items hlines
    intro now s' hs _ _ h
    obtain ⟨hs', hnext⟩ := Shop.placeOrder_good hs hsound hfresh h
    exact ⟨hs', hnext, trivial⟩
  | cons r rest ih =>
    refine .attempt fun now item hs _ hline => ?_
    refine ih (read ++ [r]) ?_ (hlines.append hs hline)
    simpa using hfinish

theorem shopCode_kept (call : ShopCall) (s : Shop) : (shopCode call).Kept s := by
  cases call with
  | createItem actor id request =>
    refine .attempt fun read i _ _ h => ?_
    intro now s' hs _ _ hwrite
    obtain ⟨catalog, hinsert, rfl⟩ := Option.map_eq_some_iff.1 hwrite
    obtain ⟨hsound, hnext⟩ := Shop.insertItem_good hs (CatalogRow.create_sound h) hinsert
    exact ⟨hsound, hnext, trivial⟩
  | updateItem actor id request => exact changeItem_kept fun s i i' hi h => CatalogRow.update_sound hi h
  | setActive actor id version active =>
    exact changeItem_kept fun s i i' hi h => CatalogRow.setActive_sound hi h
  | uploadImage actor id version url =>
    exact changeItem_kept fun s i i' hi h => CatalogRow.uploadImage_sound hi h
  | deleteItem actor id =>
    refine changeItem_kept fun s i i' hi h => ?_
    cases h
    exact ⟨⟨hi.price, hi.service, hi.product⟩, rfl, rfl⟩
  | restoreItem actor id =>
    refine .attempt fun read i _ _ h => ?_
    obtain ⟨_, -, h⟩ := bind_eq_ok.1 h
    obtain ⟨hfind, -⟩ := Option.filter_eq_some_iff.1 (orFail_eq_ok.1 h)
    exact saveItem_kept (Table.find?_eq_some.1 hfind).1 fun hi =>
      ⟨⟨hi.price, hi.service, hi.product⟩, rfl, rfl⟩
  | createResource id serviceId =>
    refine .attempt fun read a _ _ h => ?_
    obtain ⟨i, hi, h⟩ := bind_eq_ok.1 h
    obtain ⟨i', hi', h⟩ := bind_eq_ok.1 h
    cases h
    exact saveService_kept (f := fun t => t.insert ⟨id, serviceId, 0⟩) (Shop.item_eq_ok.1 hi).1 hi'
  | updateResource id serviceId version =>
    refine .attempt fun read a _ _ h => ?_
    obtain ⟨r, -, h⟩ := bind_eq_ok.1 h
    obtain ⟨_, -, h⟩ := bind_eq_ok.1 h
    obtain ⟨i, hi, h⟩ := bind_eq_ok.1 h
    obtain ⟨i', hi', h⟩ := bind_eq_ok.1 h
    cases h
    exact saveService_kept (f := fun t => t.flush ResourceRow.version ResourceRow.raise r { r with serviceId })
      (Shop.item_eq_ok.1 hi).1 hi'
  | createOrder actor id request =>
    refine .attempt fun read _ _ _ h => ?_
    obtain ⟨_, -, hproducts⟩ := bind_eq_ok.1 h
    refine createOrderLines_kept [] _ (fun items hlines => ⟨?_, rfl⟩)
      ⟨rfl, fun i hi => absurd hi List.not_mem_nil⟩
    rw [List.nil_append] at hlines
    have hlength : items.length = request.items.length := by
      simpa using congrArg List.length hlines.products
    refine ⟨fun hnil => ?_, hlength ▸ request.bounded, hlines.products ▸ check_eq_ok.1 hproducts,
      hlines.lines, rfl, fun _ => rfl, fun hmem => ?_⟩
    · rw [show items = [] from hnil] at hlength
      exact request.nonempty (List.length_eq_zero_iff.1 hlength.symm)
    · simp at hmem
  | changeStatus actor id request =>
    refine .attempt fun read a _ _ h => ?_
    obtain ⟨o, ho, h⟩ := bind_eq_ok.1 h
    obtain ⟨o', ho', h⟩ := bind_eq_ok.1 h
    cases h
    obtain ⟨_, -, hchange⟩ := bind_eq_ok.1 ho'
    intro now s' hs hlater _ hsave
    have hread := (Table.find?_eq_some.1 (orFail_eq_ok.1 ho)).1
    obtain ⟨hs', hnext⟩ := Shop.saveStatus_good hs (hlater.copy_order hread) hchange hsave
    exact ⟨hs', hnext, trivial⟩

end code

/-! ### Every run -/

variable {b b' : Board ShopCall Shop}

/-- A shop without orders, and with a sound catalogue. -/
structure Shop.New (s : Shop) : Prop where
  catalog : ∀ i ∈ s.catalog, i.Sound
  orders : s.orders = .empty
  audit : s.audit = []
  outbox : s.outbox = []

theorem Shop.New.sound {s : Shop} (h : s.New) : s.Sound where
  catalog := h.catalog
  orders o ho := by
    rw [h.orders] at ho
    exact absurd ho Table.not_mem_empty
  audited e he := by
    rw [h.audit] at he
    cases he
  sent e he := by
    rw [h.outbox] at he
    cases he

theorem sound_of_run (hidle : ∀ n, b.active n = none) (hnew : b.store.New)
    (hrun : Board.Run shopCode (fun _ _ _ => True) b b') :
    b'.Sound (fun _ _ _ => True) Shop.Sound Shop.Later :=
  hrun.sound (fun call s _ => shopCode_kept call s) (Board.sound_of_idle hidle hnew.sound)

/-- In every run every order adds up, and both what the audit and what the outbox hold of it tell
its way: the rules of `changeStatus` lead from the order as it was created to the present one,
one entry for each version. -/
theorem order_history (hidle : ∀ n, b.active n = none) (hnew : b.store.New)
    (hrun : Board.Run shopCode (fun _ _ _ => True) b b') :
    ∀ o ∈ b'.store.orders, b'.store.Told o ∧ o.version = (b'.store.auditOf o.id).length := by
  intro o ho
  have htold := (sound_of_run hidle hnew hrun).store.orders o ho
  exact ⟨htold, htold.version⟩

/-- Whatever happens to the catalogue, and however transactions interleave, an order that was
placed is never lost, keeps what was ordered at the price of that time, and moves along the
transitions up to a final status. -/
theorem order_kept {b'' : Board ShopCall Shop} (hidle : ∀ n, b.active n = none) (hnew : b.store.New)
    (hrun : Board.Run shopCode (fun _ _ _ => True) b b')
    (hrun' : Board.Run shopCode (fun _ _ _ => True) b' b'') :
    ∀ o ∈ b'.store.orders, ∃ o' ∈ b''.store.orders, o.Later o' :=
  (hrun'.later (fun call s _ => shopCode_kept call s) (sound_of_run hidle hnew hrun)).orders

/-- The catalogue stays sound, whatever was read while it changed. -/
theorem catalog_sound (hidle : ∀ n, b.active n = none) (hnew : b.store.New)
    (hrun : Board.Run shopCode (fun _ _ _ => True) b b') : ∀ i ∈ b'.store.catalog, i.Sound :=
  (sound_of_run hidle hnew hrun).store.catalog

/-! ### Two employees take up one order -/

namespace Kiosk

def shop : Shop :=
  { catalog := ⟨[⟨10, "Cola", .product, 15000, none, false, true, none, false, 0⟩], by decide⟩
    resources := .empty
    orders := .empty
    audit := []
    outbox := [] }

def idle : Board ShopCall Shop := ⟨shop, fun _ => none⟩

def twoColas : CreateOrderRequest := ⟨[⟨10, 2, by decide, by decide⟩], by simp, by decide⟩

def ordering : List (Act ShopCall) :=
  [.start 0 (.createOrder ⟨2, .customer⟩ 100 twoColas), .turn 0, .turn 0, .turn 0]

/-- Both read the order before either writes. -/
def claiming : List (Act ShopCall) :=
  [.start 1 (.changeStatus ⟨3, .employee⟩ 100 ⟨.inProgress, 0⟩),
    .start 2 (.changeStatus ⟨4, .employee⟩ 100 ⟨.inProgress, 0⟩), .turn 1, .turn 2, .turn 1, .turn 2]

def colas (handledBy : Option UUID) (status : OrderStatus) (version : ℕ) : Order :=
  ⟨100, 2, handledBy, status, 30000, [⟨10, 2, 15000, 30000⟩], version⟩

theorem shop_new : shop.New := by
  refine ⟨fun i hi => ?_, rfl, rfl, rfl⟩
  obtain rfl := List.mem_singleton.1 hi
  exact ⟨by decide, fun h => (by cases h), fun _ => ⟨rfl, rfl⟩⟩

theorem ordered : ∃ b, b.store.orders.rows = [colas none .created 0] ∧
    Board.Run shopCode (fun _ _ _ => True) idle b :=
  ⟨_, rfl, .of_run shopCode (.refl idle) ordering (Board.meetsAll_true shopCode ..) rfl⟩

theorem claimed : ∃ b b' : Board ShopCall Shop, b.store.orders.rows = [colas none .created 0] ∧
    b'.store.orders.rows = [colas (some 3) .inProgress 1] ∧ (b'.store.auditOf 100).length = 1 ∧
    Board.Run shopCode (fun _ _ _ => True) idle b ∧ Board.Run shopCode (fun _ _ _ => True) b b' ∧
    Board.Run shopCode (fun _ _ _ => True) idle b' :=
  ⟨_, _, rfl, rfl, rfl, .of_run shopCode (.refl idle) ordering (Board.meetsAll_true shopCode ..) rfl,
    .of_run shopCode (.refl _) claiming (Board.meetsAll_true shopCode ..) rfl,
    .of_run shopCode (.refl idle) (ordering ++ claiming) (Board.meetsAll_true shopCode ..) rfl⟩

theorem order_history_claimed :
    ∃ b : Board ShopCall Shop, ∃ o ∈ b.store.orders, o = colas (some 3) .inProgress 1 ∧
    (b.store.auditOf o.id).length = 1 ∧ b.store.Told o ∧ o.version = (b.store.auditOf o.id).length := by
  obtain ⟨-, b', -, hrows, haudit, -, -, hrun⟩ := claimed
  have ho : colas (some 3) .inProgress 1 ∈ b'.store.orders.rows := by
    rw [hrows]
    exact List.mem_cons_self
  exact ⟨b', _, ho, rfl, haudit, order_history (fun _ => rfl) shop_new hrun _ ho⟩

theorem order_kept_claimed :
    ∃ b' : Board ShopCall Shop, b'.store.orders.rows = [colas (some 3) .inProgress 1] ∧
    ∃ o' ∈ b'.store.orders, (colas none .created 0).Later o' := by
  obtain ⟨b, b', hrows, hrows', -, hrun, hrun', -⟩ := claimed
  have ho : colas none .created 0 ∈ b.store.orders.rows := by
    rw [hrows]
    exact List.mem_cons_self
  exact ⟨b', hrows', order_kept (fun _ => rfl) shop_new hrun hrun' _ ho⟩

theorem catalog_sound_ordered : ∃ b : Board ShopCall Shop, b.store.orders.rows = [colas none .created 0] ∧
    ∀ i ∈ b.store.catalog, i.Sound := by
  obtain ⟨b, hrows, hrun⟩ := ordered
  exact ⟨b, hrows, catalog_sound (fun _ => rfl) shop_new hrun⟩

end Kiosk

end GManager
