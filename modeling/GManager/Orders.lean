import GManager.OptimisticLocks
import GManager.RefreshTokens
import GManager.TimeService
import GManager.TransactionRuns

/-!
# Orders

`CatalogService` and `OrderService`, as transactions over a shop: the catalogue, the orders, and what the
audit and the outbox write down about them. An order copies the prices of its products; afterwards only its
status changes, along `validateTransition` and by whom `OrderAuthorizationPolicy` lets. Money is in
hundredths, as `DECIMAL(12, 2)` keeps it.
-/

namespace GManager

/-! ### The catalogue -/

/-- A row of `catalog_items`. -/
structure CatalogRow where
  id : UUID
  name : String
  type : ItemType
  price : ℤ
  durationMinutes : Option ℤ
  requiresResource : Bool
  active : Bool
  imageUrl : Option String
  deleted : Bool
  version : ℕ
  deriving DecidableEq, Repr

/-- The service of a row of `physical_resources`. -/
structure ResourceRow where
  id : UUID
  serviceId : UUID
  version : ℕ
  deriving DecidableEq, Repr

/-- A validated amount of a request. -/
structure Price where
  amount : ℤ
  pos : 0 < amount
  digits : amount < 10 ^ 12
  deriving DecidableEq, Repr

structure CreateCatalogItemRequest where
  name : String
  type : ItemType
  price : Price
  durationMinutes : Option ℤ
  requiresResource : Option Bool
  deriving DecidableEq, Repr

structure UpdateCatalogItemRequest where
  name : Option String
  type : Option ItemType
  price : Option Price
  durationMinutes : Option ℤ
  version : ℕ
  requiresResource : Option Bool
  deriving DecidableEq, Repr

def isManagement (role : Role) : Bool := role = .owner ∨ role = .admin

def requireCatalogManagement (actor : AuthenticatedUser) : Except Failure Unit :=
  check (isManagement actor.role) (fail .forbidden "Catalog management is not permitted")

def validateType (type : ItemType) (durationMinutes : Option ℤ) : Except Failure Unit :=
  if type = .service then
    check (∃ d ∈ durationMinutes, 0 < d) (fail .unprocessableEntity "Services require a positive duration")
  else check (durationMinutes = none) (fail .unprocessableEntity "Products cannot have a duration")

def validateResourceRequirement (type : ItemType) (required : Bool) : Except Failure Unit :=
  check (required → type = .service)
    (fail .unprocessableEntity "Only services can require a physical resource")

namespace CatalogRow

def raise (i : CatalogRow) : CatalogRow := { i with version := i.version + 1 }

def requireVersion (i : CatalogRow) (expected : ℕ) : Except Failure Unit :=
  check (i.version = expected) (fail .conflict "Catalog item was changed; refresh and try again")

/-- `create`. -/
def create (actor : AuthenticatedUser) (id : UUID) (request : CreateCatalogItemRequest) :
    Except Failure CatalogRow := do
  requireCatalogManagement actor
  validateType request.type request.durationMinutes
  let required := request.requiresResource.getD false
  validateResourceRequirement request.type required
  return ⟨id, trim request.name, request.type, request.price.amount, request.durationMinutes, required,
    true, none, false, 0⟩

/-- `update`; `linked` is whether a physical resource refers to the item. -/
def update (i : CatalogRow) (linked : Bool) (request : UpdateCatalogItemRequest) :
    Except Failure CatalogRow := do
  i.requireVersion request.version
  let type := request.type.getD i.type
  let durationMinutes :=
    if type = .product then request.durationMinutes else request.durationMinutes.or i.durationMinutes
  validateType type durationMinutes
  check (∀ n ∈ request.name, Auth.isBlank n = false) (fail .badRequest "Name must not be blank")
  check (linked → request.requiresResource ≠ some false ∧ type = .service)
    (fail .unprocessableEntity "Services linked to physical resources must require a resource")
  let required := linked || request.requiresResource.getD i.requiresResource
  validateResourceRequirement type required
  return { i with
    name := (request.name.map trim).getD i.name
    type
    price := (request.price.map Price.amount).getD i.price
    durationMinutes
    requiresResource := required }

/-- `activate` and `deactivate`. -/
def setActive (i : CatalogRow) (version : ℕ) (active : Bool) : Except Failure CatalogRow := do
  i.requireVersion version
  return { i with active }

/-- `uploadImage`, when the image is stored under `url`. -/
def uploadImage (i : CatalogRow) (version : ℕ) (url : String) : Except Failure CatalogRow := do
  i.requireVersion version
  return { i with imageUrl := some url }

def softDelete (i : CatalogRow) : CatalogRow := { i with deleted := true, active := false }

def restore (i : CatalogRow) : CatalogRow := { i with deleted := false }

/-- `requirePhysicalResource`. -/
def requirePhysicalResource (i : CatalogRow) : Except Failure CatalogRow := do
  check i.active (fail .unprocessableEntity "Catalog item is inactive")
  check (i.type = .service) (fail .unprocessableEntity "Resource must reference a service")
  return { i with requiresResource := true }

end CatalogRow

namespace ResourceRow

def raise (r : ResourceRow) : ResourceRow := { r with version := r.version + 1 }

def requireVersion (r : ResourceRow) (expected : Option ℕ) : Except Failure Unit :=
  check (expected = some r.version) (fail .conflict "Resource was changed; refresh and try again")

end ResourceRow

/-! ### Orders -/

inductive OrderStatus
  | created | inProgress | ready | completed | cancelled
  deriving DecidableEq, Repr

structure OrderItem where
  productId : UUID
  quantity : ℤ
  unitPrice : ℤ
  lineTotal : ℤ
  deriving DecidableEq, Repr

structure Order where
  id : UUID
  customerId : UUID
  handledBy : Option UUID
  status : OrderStatus
  totalPrice : ℤ
  items : List OrderItem
  version : ℕ
  deriving DecidableEq, Repr

/-- A validated line of a request. -/
structure OrderItemRequest where
  productId : UUID
  quantity : ℤ
  positive : 1 ≤ quantity
  bounded : quantity ≤ 999
  deriving DecidableEq, Repr

/-- A validated request for an order. -/
structure CreateOrderRequest where
  items : List OrderItemRequest
  nonempty : items ≠ []
  bounded : items.length ≤ 100
  deriving DecidableEq, Repr

structure UpdateOrderStatusRequest where
  status : OrderStatus
  version : ℕ
  deriving DecidableEq, Repr

/-- `validateTransition`: which status may follow. -/
def OrderStatus.allows : OrderStatus → OrderStatus → Bool
  | .created, target => target = .inProgress ∨ target = .cancelled
  | .inProgress, target => target = .ready ∨ target = .cancelled
  | .ready, target => target = .completed ∨ target = .cancelled
  | .completed, _ => false
  | .cancelled, _ => false

namespace Order

def raise (o : Order) : Order := { o with version := o.version + 1 }

/-- `OrderAuthorizationPolicy.requireTransition`. -/
def permits (o : Order) (actor : AuthenticatedUser) (target : OrderStatus) : Bool :=
  let management := actor.role = .admin ∨ actor.role = .owner
  let employee := actor.role = .employee
  let handler := employee ∧ o.handledBy = some actor.id
  let customerOwner := actor.role = .customer ∧ actor.id = o.customerId
  match target with
  | .inProgress => employee ∨ management
  | .ready | .completed => handler ∨ management
  | .cancelled => match o.status with
    | .created => customerOwner ∨ employee ∨ management
    | .inProgress => handler ∨ management
    | .ready => management
    | .completed | .cancelled => false
  | .created => false

/-- The body of `changeStatus`, behind the check of the version. -/
def change (o : Order) (actor : AuthenticatedUser) (target : OrderStatus) : Except Failure Order := do
  check (o.status.allows target) (fail .conflict "Invalid order status transition")
  check (o.permits actor target) (fail .forbidden "This order action is not permitted")
  return { o with
    handledBy := if o.status = .created ∧ target = .inProgress then some actor.id else o.handledBy
    status := target }

def changeStatus (o : Order) (actor : AuthenticatedUser) (request : UpdateOrderStatusRequest) :
    Except Failure Order := do
  check (o.version = request.version) (fail .conflict "Order was changed; refresh and try again")
  o.change actor request.status

end Order

/-! ### The shop -/

/-- The row that the audit writes for a change of status. -/
structure OrderAudit where
  actor : AuthenticatedUser
  orderId : UUID
  previous : OrderStatus
  status : OrderStatus
  deriving DecidableEq, Repr

/-- `ORDER_CREATED`, without a previous status, and `ORDER_STATUS_CHANGED`. -/
structure OrderEvent where
  orderId : UUID
  previous : Option OrderStatus
  status : OrderStatus
  deriving DecidableEq, Repr

structure Shop where
  catalog : Table CatalogRow.id
  resources : Table ResourceRow.id
  orders : Table Order.id
  audit : List OrderAudit
  outbox : List OrderEvent

/-- What a column of the money takes. -/
def fitsColumn (amount : ℤ) : Bool := -10 ^ 12 < amount ∧ amount < 10 ^ 12

def totalOf (items : List OrderItem) : ℤ := (items.map (·.lineTotal)).sum

namespace Shop

variable (s : Shop)

/-- `hasPhysicalResources`. -/
def hasPhysicalResources (id : UUID) : Bool := s.resources.rows.any fun r => r.serviceId = id

def item (id : UUID) : Except Failure CatalogRow :=
  orFail ((s.catalog.find? id).filter fun i => !i.deleted) (fail .notFound "Catalog item not found")

/-- One line of a new order. -/
def line (r : OrderItemRequest) : Except Failure OrderItem := do
  let product ← s.item r.productId
  check product.active (fail .unprocessableEntity "Catalog item is inactive")
  check (product.type = .product) (fail .unprocessableEntity "Only products can be added to an order")
  return ⟨product.id, r.quantity, product.price, product.price * r.quantity⟩

/-- Writes a new order and its event; an amount that its column does not take fails. -/
def placeOrder (o : Order) : Option Shop :=
  if fitsColumn o.totalPrice ∧ ∀ i ∈ o.items, fitsColumn i.lineTotal then
    (s.orders.insert o).map fun orders => { s with orders, outbox := s.outbox ++ [⟨o.id, none, o.status⟩] }
  else none

/-- Writes a change of status over the order as it was read. -/
def saveStatus (actor : AuthenticatedUser) (o o' : Order) : Option Shop :=
  (s.orders.flush Order.version Order.raise o o').map fun orders =>
    { s with
      orders
      audit := s.audit ++ [⟨actor, o.id, o.status, o'.status⟩]
      outbox := s.outbox ++ [⟨o.id, some o.status, o'.status⟩] }

def saveItem (i i' : CatalogRow) : Option Shop :=
  (s.catalog.flush CatalogRow.version CatalogRow.raise i i').map fun catalog => { s with catalog }

def insertResource (r : ResourceRow) : Option Shop :=
  (s.resources.insert r).map fun resources => { s with resources }

def saveResource (r r' : ResourceRow) : Option Shop :=
  (s.resources.flush ResourceRow.version ResourceRow.raise r r').map fun resources => { s with resources }

end Shop

/-! ### Transactions -/

inductive ShopCall
  | createItem (actor : AuthenticatedUser) (id : UUID) (request : CreateCatalogItemRequest)
  | updateItem (actor : AuthenticatedUser) (id : UUID) (request : UpdateCatalogItemRequest)
  | setActive (actor : AuthenticatedUser) (id : UUID) (version : ℕ) (active : Bool)
  | uploadImage (actor : AuthenticatedUser) (id : UUID) (version : ℕ) (url : String)
  | deleteItem (actor : AuthenticatedUser) (id : UUID)
  | restoreItem (actor : AuthenticatedUser) (id : UUID)
  | createResource (id serviceId : UUID)
  | updateResource (id serviceId : UUID) (version : Option ℕ)
  | createOrder (actor : AuthenticatedUser) (id : UUID) (request : CreateOrderRequest)
  | changeStatus (actor : AuthenticatedUser) (id : UUID) (request : UpdateOrderStatusRequest)

/-- Reads one item for a manager, and writes what becomes of it. -/
def changeItem (actor : AuthenticatedUser) (id : UUID) (f : Shop → CatalogRow → Except Failure CatalogRow) :
    Transaction Shop :=
  .attempt (fun s => do
    requireCatalogManagement actor
    let i ← s.item id
    let i' ← f s i
    return (i, i')) fun (i, i') => .write (·.saveItem i i') .done

/-- The loop of `OrderService.create`: the products are read one after the other. -/
def createOrderLines (finish : List OrderItem → Order) : List OrderItemRequest →
    List OrderItem → Transaction Shop
  | [], items => .write (·.placeOrder (finish items)) .done
  | r :: rest, items => .attempt (fun s => s.line r) fun item =>
      createOrderLines finish rest (items ++ [item])

/-- What is asked before the products are read. -/
def requireOrder (actor : AuthenticatedUser) (request : CreateOrderRequest) : Except Failure Unit := do
  check (actor.role = .customer) (fail .forbidden "Only customers can create orders")
  check (request.items.map (·.productId)).Nodup
    (fail .unprocessableEntity "Each product may appear only once per order")

def shopCode : ShopCall → Transaction Shop
  | .createItem actor id request =>
    .attempt (fun _ => CatalogRow.create actor id request) fun i =>
      .write (fun s => (s.catalog.insert i).map fun catalog => { s with catalog }) .done
  | .updateItem actor id request => changeItem actor id fun s i =>
      i.update (s.hasPhysicalResources id) request
  | .setActive actor id version active => changeItem actor id fun _ i => i.setActive version active
  | .uploadImage actor id version url => changeItem actor id fun _ i => i.uploadImage version url
  | .deleteItem actor id => changeItem actor id fun _ i => .ok i.softDelete
  | .restoreItem actor id =>
    .attempt (fun s => do
      requireCatalogManagement actor
      orFail ((s.catalog.find? id).filter (·.deleted))
        (fail .notFound "Deleted catalog item not found")) fun i =>
      .write (·.saveItem i i.restore) .done
  | .createResource id serviceId =>
    .attempt (fun s => do
      let i ← s.item serviceId
      let i' ← i.requirePhysicalResource
      return (i, i')) fun (i, i') =>
        .write (fun s => (s.saveItem i i').bind (·.insertResource ⟨id, serviceId, 0⟩)) .done
  | .updateResource id serviceId version =>
    .attempt (fun s => do
      let r ← orFail (s.resources.find? id) (fail .notFound "Resource not found")
      r.requireVersion version
      let i ← s.item serviceId
      let i' ← i.requirePhysicalResource
      return (r, i, i')) fun (r, i, i') =>
      .write (fun s => (s.saveItem i i').bind (·.saveResource r { r with serviceId })) .done
  | .createOrder actor id request =>
    .attempt (fun _ => requireOrder actor request) fun _ =>
      createOrderLines (fun items => ⟨id, actor.id, none, .created, totalOf items, items, 0⟩) request.items []
  | .changeStatus actor id request =>
    .attempt (fun s => do
      let o ← orFail (s.orders.find? id) (fail .notFound "Order not found")
      let o' ← o.changeStatus actor request
      return (o, o')) fun (o, o') => .write (·.saveStatus actor o o') .done

/-! ### Items are sound -/

/-- The check constraints of `catalog_items`, and that only services need a resource. -/
structure CatalogRow.Sound (i : CatalogRow) : Prop where
  price : 0 < i.price
  service : i.type = .service → ∃ d ∈ i.durationMinutes, 0 < d
  product : i.type = .product → i.durationMinutes = none ∧ i.requiresResource = false

section items

variable {i i' : CatalogRow} {type : ItemType} {duration : Option ℤ} {required : Bool} {u : Unit}

theorem validateType_eq_ok (h : validateType type duration = .ok u) :
    (type = .service → ∃ d ∈ duration, 0 < d) ∧ (type = .product → duration = none) := by
  cases type with
  | service => exact ⟨fun _ => check_eq_ok.1 h, fun h => by cases h⟩
  | product => exact ⟨fun h => (by cases h), fun _ => check_eq_ok.1 h⟩

theorem product_of_validate (h : validateResourceRequirement type required = .ok u)
    (htype : type = .product) : required = false := by
  have hrequired : required → type = .service := check_eq_ok.1 h
  cases required with
  | false => rfl
  | true =>
    rw [htype] at hrequired
    cases hrequired rfl

theorem CatalogRow.Sound.raise (h : i.Sound) : i.raise.Sound := ⟨h.price, h.service, h.product⟩

theorem CatalogRow.create_sound {actor : AuthenticatedUser} {id : UUID} {request : CreateCatalogItemRequest}
    (h : CatalogRow.create actor id request = .ok i) : i.Sound := by
  obtain ⟨_, -, h⟩ := bind_eq_ok.1 h
  obtain ⟨_, htype, h⟩ := bind_eq_ok.1 h
  obtain ⟨_, hresource, h⟩ := bind_eq_ok.1 h
  cases h
  obtain ⟨hservice, hproduct⟩ := validateType_eq_ok htype
  exact ⟨request.price.pos, hservice, fun h => ⟨hproduct h, product_of_validate hresource h⟩⟩

theorem CatalogRow.update_sound {linked : Bool} {request : UpdateCatalogItemRequest} (hi : i.Sound)
    (h : i.update linked request = .ok i') : i'.Sound ∧ i'.id = i.id ∧ i'.version = i.version := by
  obtain ⟨_, -, h⟩ := bind_eq_ok.1 h
  obtain ⟨_, htype, h⟩ := bind_eq_ok.1 h
  obtain ⟨_, -, h⟩ := bind_eq_ok.1 h
  obtain ⟨_, -, h⟩ := bind_eq_ok.1 h
  obtain ⟨_, hresource, h⟩ := bind_eq_ok.1 h
  cases h
  obtain ⟨hservice, hproduct⟩ := validateType_eq_ok htype
  refine ⟨⟨?_, hservice, fun h => ⟨hproduct h, product_of_validate hresource h⟩⟩, rfl, rfl⟩
  cases hprice : request.price with
  | none => simpa [hprice] using hi.price
  | some p => simpa [hprice] using p.pos

theorem CatalogRow.setActive_sound {version : ℕ} {active : Bool} (hi : i.Sound)
    (h : i.setActive version active = .ok i') : i'.Sound ∧ i'.id = i.id ∧ i'.version = i.version := by
  obtain ⟨_, -, h⟩ := bind_eq_ok.1 h
  cases h
  exact ⟨⟨hi.price, hi.service, hi.product⟩, rfl, rfl⟩

theorem CatalogRow.uploadImage_sound {version : ℕ} {url : String} (hi : i.Sound)
    (h : i.uploadImage version url = .ok i') : i'.Sound ∧ i'.id = i.id ∧ i'.version = i.version := by
  obtain ⟨_, -, h⟩ := bind_eq_ok.1 h
  cases h
  exact ⟨⟨hi.price, hi.service, hi.product⟩, rfl, rfl⟩

theorem CatalogRow.requirePhysicalResource_sound (hi : i.Sound) (h : i.requirePhysicalResource = .ok i') :
    i'.Sound ∧ i'.id = i.id ∧ i'.version = i.version := by
  obtain ⟨_, -, h⟩ := bind_eq_ok.1 h
  obtain ⟨_, htype, h⟩ := bind_eq_ok.1 h
  cases h
  have htype := check_eq_ok.1 htype
  refine ⟨⟨hi.price, hi.service, fun hproduct => ?_⟩, rfl, rfl⟩
  cases htype.symm.trans hproduct

end items

/-! ### Orders are sound -/

/-- An order adds up, and someone handles it once it was taken up. -/
structure Order.Sound (o : Order) : Prop where
  nonempty : o.items ≠ []
  bounded : o.items.length ≤ 100
  products : (o.items.map (·.productId)).Nodup
  lines : ∀ i ∈ o.items, 1 ≤ i.quantity ∧ i.quantity ≤ 999 ∧ 0 < i.unitPrice ∧
    i.lineTotal = i.unitPrice * i.quantity
  total : o.totalPrice = totalOf o.items
  waiting : o.status = .created → o.handledBy = none
  handled : o.status ∈ [OrderStatus.inProgress, .ready, .completed] → o.handledBy.isSome

section orders

variable {o o' : Order} {actor : AuthenticatedUser} {target : OrderStatus} {s : Shop}

theorem Shop.item_eq_ok {id : UUID} {i : CatalogRow} : s.item id = .ok i ↔ i ∈ s.catalog ∧ i.id = id ∧
    i.deleted = false := by
  rw [Shop.item, orFail_eq_ok, Option.filter_eq_some_iff, Table.find?_eq_some]
  simp [and_assoc]

/-- A line takes the price of its product. -/
theorem Shop.line_spec {r : OrderItemRequest} {item : OrderItem} (hs : ∀ i ∈ s.catalog, i.Sound)
    (h : s.line r = .ok item) : item.productId = r.productId ∧ item.quantity = r.quantity ∧
    0 < item.unitPrice ∧
      item.lineTotal = item.unitPrice * item.quantity ∧
      ∃ i ∈ s.catalog, i.id = r.productId ∧ i.type = .product ∧ i.active = true ∧
      i.price = item.unitPrice := by
  obtain ⟨i, hi, h⟩ := bind_eq_ok.1 h
  obtain ⟨_, hactive, h⟩ := bind_eq_ok.1 h
  obtain ⟨_, htype, h⟩ := bind_eq_ok.1 h
  cases h
  obtain ⟨hi, hid, -⟩ := Shop.item_eq_ok.1 hi
  exact ⟨hid, rfl, (hs i hi).price, rfl, i, hi, hid, check_eq_ok.1 htype, check_eq_ok.1 hactive, rfl⟩

theorem Order.change_eq_ok : o.change actor target = .ok o' ↔ o.status.allows target = true ∧
    o.permits actor target = true ∧ o' = { o with
      handledBy := if o.status = .created ∧ target = .inProgress then some actor.id else o.handledBy
      status := target } := by
  constructor
  · intro h
    obtain ⟨_, hallows, h⟩ := bind_eq_ok.1 h
    obtain ⟨_, hpermits, h⟩ := bind_eq_ok.1 h
    cases h
    exact ⟨check_eq_ok.1 hallows, check_eq_ok.1 hpermits, rfl⟩
  · rintro ⟨hallows, hpermits, rfl⟩
    exact bind_eq_ok.2 ⟨(), check_eq_ok.2 hallows, bind_eq_ok.2 ⟨(), check_eq_ok.2 hpermits, rfl⟩⟩

theorem OrderStatus.ne_of_allows {status : OrderStatus} (h : status.allows target = true) :
    target ≠ status := by
  rintro rfl
  cases target <;> simp [OrderStatus.allows] at h

/-- A change of status leaves what was ordered alone. -/
theorem Order.change_sound (ho : o.Sound) (h : o.change actor target = .ok o') : o'.Sound := by
  obtain ⟨hallows, -, rfl⟩ := Order.change_eq_ok.1 h
  refine ⟨ho.nonempty, ho.bounded, ho.products, ho.lines, ho.total, fun htarget => ?_, fun htarget => ?_⟩
  · dsimp only at htarget
    subst htarget
    cases hstatus : o.status <;> rw [hstatus] at hallows <;> simp [OrderStatus.allows] at hallows
  · dsimp only at htarget ⊢
    split_ifs with hclaim
    · rfl
    · refine ho.handled ?_
      cases hstatus : o.status <;> cases target <;> simp_all [OrderStatus.allows]

end orders

end GManager
