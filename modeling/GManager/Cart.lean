import GManager.Rows
import Mathlib.Data.List.Sort

/-!
# The cart of a customer

`useCustomerCart` and the checkout of its page, with the draft on the device, the network and the server
that they talk to. An order goes out as an attempt with a key of its own; the attempt is saved with the cart
before the request is sent, and stays until its outcome is known. Pages come and go and the tab may be
closed at any time, writes to the device may fail, and requests and answers may be late or lost. There is
one customer in one tab, whose session may end; amounts are left out. What `client.ts` asks again with a new
token, after a 401, is the same request here.
-/

namespace GManager.Cart

/-- A product with its quantity: an entry of `quantities`, a line of the cart, an item of an order. -/
structure Item where
  productId : UUID
  quantity : ℕ
  deriving DecidableEq, Repr

/-- `CustomerOrderAttempt`. -/
structure Attempt where
  key : UUID
  items : List Item
  deriving DecidableEq, Repr

structure CartState where
  ready : Bool
  quantities : List Item
  attempt : Option Attempt
  deriving DecidableEq, Repr

/-- What `saveDraft` stores. -/
structure Draft where
  quantities : List Item
  attempt : Option Attempt
  deriving DecidableEq, Repr

/-! ### Quantities -/

/-- `quantities[id] ?? 0`. -/
def quantityOf (quantities : List Item) (id : UUID) : ℕ :=
  ((quantities.find? fun i => i.productId = id).map Item.quantity).getD 0

def remove (quantities : List Item) (id : UUID) : List Item := quantities.filter fun i => i.productId ≠ id

/-- `quantities[id] = amount`. -/
def assign (quantities : List Item) (id : UUID) (amount : ℕ) : List Item :=
  if quantities.any fun i => i.productId = id then
    quantities.map fun i => if i.productId = id then ⟨id, amount⟩ else i
  else quantities ++ [⟨id, amount⟩]

/-- `change`. -/
def changed (quantities : List Item) (id : UUID) (quantity : ℤ) : List Item :=
  let amount := (max 0 (min 999 quantity)).toNat
  if amount = 0 then remove quantities id else assign quantities id amount

/-- `add`. -/
def added (quantities : List Item) (id : UUID) (minimum : Bool) : List Item :=
  assign quantities id (if minimum then max 1 (quantityOf quantities id)
    else min 999 (quantityOf quantities id + 1))

def byProduct (i j : Item) : Prop := i.productId ≤ j.productId

instance : DecidableRel byProduct := fun i j => inferInstanceAs (Decidable (i.productId ≤ j.productId))

/-- `ids` and `buildCart`. -/
def buildCart (resolved : List UUID) (quantities : List Item) : List Item :=
  (quantities.insertionSort byProduct).filter fun i => i.productId ∈ resolved ∧ 0 < i.quantity

def orderable (i : Item) : Bool := 1 ≤ i.quantity ∧ i.quantity ≤ 999

def normalizeCartQuantities (quantities : List Item) : List Item := quantities.filter orderable

/-- What `savedAttempt` asks for. -/
def Attempt.wellFormed (a : Attempt) : Bool :=
  a.items ≠ [] ∧ (a.items.map Item.productId).Nodup ∧ ∀ i ∈ a.items, orderable i

def savedAttempt (attempt : Option Attempt) : Option Attempt := attempt.filter Attempt.wellFormed

def CartState.unloaded : CartState := ⟨false, [], none⟩

def CartState.cleared : CartState := ⟨true, [], none⟩

/-- What `persist` leaves on the device. -/
def CartState.draft (s : CartState) : Option Draft :=
  if s.quantities = [] ∧ s.attempt = none then none else some ⟨s.quantities, s.attempt⟩

/-- The cart as it is loaded; the items of an attempt stand in it. -/
def restored (draft : Option Draft) : CartState :=
  match draft with
  | none => .cleared
  | some d =>
    let attempt := savedAttempt d.attempt
    let quantities := normalizeCartQuantities d.quantities
    ⟨true, ((attempt.map Attempt.items).getD []).foldl (fun q i => assign q i.productId i.quantity)
      quantities, attempt⟩

/-! ### The page -/

/-- Where `send` stands. -/
inductive Sending
  /-- The attempt is being saved, by the write of this number. -/
  | saving (write : ℕ) (attempt : Attempt)
  | requested (request : ℕ) (attempt : Attempt) (previous : Bool)
  /-- The order is confirmed, and the empty cart is being saved. -/
  | clearing (write : ℕ)
  deriving DecidableEq, Repr

/-- The hook in a page. It loads the draft when `load` writes have ended; a new
state is saved by an effect. -/
structure Page where
  load : Option ℕ
  state : CartState
  unsaved : Bool
  checkout : Option (List Item)
  sending : Option Sending
  deriving DecidableEq, Repr

/-- What the server answers to `orderApi.create`. -/
inductive Reply
  | created
  | refused (status : ℕ) (conflictKey : Bool)
  deriving DecidableEq, Repr

/-- The error leaves open whether the order was placed. -/
def uncertain (previous : Bool) : Reply → Bool
  | .created => false
  | .refused status conflictKey =>
    status = 425 ∨ 500 ≤ status ∨ status = 409 ∧ conflictKey ∨ previous ∧ (status = 401 ∨ status = 403)

namespace Page

variable (p : Page)

def set (state : CartState) : Page := { p with state, unsaved := true }

def setQuantities (quantities : List Item) : Page := p.set { p.state with quantities }

/-- The attempt is given up. -/
def release : Page := { p.set { p.state with attempt := none } with sending := none }

/-- The cart may be changed. -/
def free : Bool := p.state.ready ∧ p.state.attempt = none ∧ p.sending = none

end Page

/-! ### All together -/

/-- A request that was sent; `previous` says that its attempt was there before. -/
structure Request where
  attempt : Attempt
  previous : Bool
  deriving DecidableEq, Repr

/-- The network and the server. -/
structure Net where
  /-- Every attempt that there has been. -/
  issued : List Attempt
  /-- Every request, by its number. -/
  requests : List Request
  inFlight : List ℕ
  answers : List (ℕ × Reply)
  /-- The completed keys of the server, with what was asked for. -/
  rows : List Attempt
  orders : List Attempt
  deriving DecidableEq, Repr

/-- The draft on the device, and the writes to it. -/
structure Device where
  draft : Option Draft
  /-- How many writes have ended. -/
  written : ℕ
  /-- `draftWrites`. -/
  writes : List CartState
  deriving DecidableEq, Repr

structure World where
  device : Device
  page : Option Page
  /-- Whose orders a page has seen confirmed. -/
  confirmed : List Attempt
  net : Net
  deriving DecidableEq, Repr

inductive Event
  | closeTab
  /-- `clearSession`. The purge may fail, and the write that is under way may end after it. -/
  | signOut (purged late : Bool)
  | mount
  | unmount
  | loaded
  | loadFails
  | retryDraft
  | effect
  | write (succeeds : Bool)
  | change (id : UUID) (quantity : ℤ)
  | add (id : UUID) (minimum : Bool)
  | clear
  | dropUnavailable (ids : List UUID)
  | openCheckout (resolved : List UUID)
  | closeCheckout
  | send (resolved : List UUID) (key : UUID)
  | receive (reply : Reply)
  | noAnswer
  | serve (request : ℕ)
  /-- An answer without an order: of the rate limit, of the keys while a request of the same one executes,
  of the checks of `OrderService.create`, or of anything on the way. -/
  | refuse (request status : ℕ) (conflictKey : Bool)
  | expire (key : UUID)
  deriving DecidableEq, Repr

namespace Net

variable (net : Net)

def send (a : Attempt) (previous : Bool) : Net :=
  { net with requests := net.requests ++ [⟨a, previous⟩], inFlight := net.inFlight ++ [net.requests.length] }

def answer (request : ℕ) (reply : Reply) : Net :=
  { net with inFlight := net.inFlight.erase request, answers := net.answers ++ [(request, reply)] }

/-- The request is taken: by the handler, unless its key has been completed. -/
def serve (request : ℕ) (a : Attempt) : Net :=
  match net.rows.find? fun r => r.key = a.key with
  | some r => net.answer request (if r.items = a.items then .created else .refused 409 true)
  | none => { net with rows := net.rows ++ [a], orders := net.orders ++ [a] }.answer request .created

end Net

namespace Device

variable (d : Device)

/-- The number of the next write. -/
def next : ℕ := d.written + d.writes.length

/-- `persist`. -/
def persist (s : CartState) : Device := { d with writes := d.writes ++ [s] }

/-- One write ends. -/
def wrote (s : CartState) (writes : List CartState) (succeeds : Bool) : Device :=
  ⟨if succeeds then s.draft else d.draft, d.written + 1, writes⟩

/-- What the session leaves behind; the writes that wait find it gone. -/
def signOut (purged late : Bool) : Device :=
  { d with
    draft := match d.writes with
      | s :: _ => if late then s.draft else if purged then none else d.draft
      | [] => if purged then none else d.draft
    writes := [] }

end Device

namespace World

def new : World := ⟨⟨none, 0, []⟩, none, [], ⟨[], [], [], [], [], []⟩⟩

variable (w : World)

def setPage (p : Page) : World := { w with page := some p }

/-- What the page does if it may. -/
def onPage (guard : Page → Bool) (f : Page → World) : Option World :=
  w.page.bind fun p => if guard p then some (f p) else none

def request (p : Page) (a : Attempt) (previous : Bool) : World :=
  { w with
    page := some { p with sending := some (.requested w.net.requests.length a previous) }
    net := w.net.send a previous }

/-- `send` goes on when a write that it waits for has ended. -/
def resume (p : Page) (succeeds : Bool) : World :=
  match p.sending with
  | some (.saving n a) =>
    if n + 1 = w.device.written then if succeeds then w.request p a false else w.setPage p.release else w
  | some (.clearing n) =>
    if n + 1 = w.device.written then w.setPage { p with sending := none, checkout := none } else w
  | _ => w

/-- One write ends. -/
def write (succeeds : Bool) : Option World :=
  match w.device.writes with
  | [] => none
  | s :: writes =>
    let w := { w with device := w.device.wrote s writes succeeds }
    some (match w.page with
      | some p => w.resume p succeeds
      | none => w)

/-- `send` without a previous attempt. -/
def submit (p : Page) (snapshot : List Item) (key : UUID) : World :=
  let a : Attempt := ⟨key, snapshot.insertionSort byProduct⟩
  let pending := { p.state with attempt := some a }
  { w with
    device := w.device.persist pending
    page := some { p.set pending with sending := some (.saving w.device.next a) }
    net := { w.net with issued := w.net.issued ++ [a] } }

/-- `send` with the answer to its request. -/
def receive (p : Page) (a : Attempt) (previous : Bool) (reply : Reply) : World :=
  if reply = .created then
    { w with
      device := w.device.persist .cleared
      page := some { p.set .cleared with sending := some (.clearing w.device.next) }
      confirmed := w.confirmed ++ [a] }
  else if uncertain previous reply then w.setPage { p with sending := none }
  else w.setPage p.release

/-- The loading of the draft has waited for the writes that were under way. -/
def loads (p : Page) : Bool := ∃ n ∈ p.load, n ≤ w.device.written

def step (w : World) : Event → Option World
  | .closeTab => some { w with page := none, device := { w.device with writes := [] } }
  | .signOut purged late => some { w with page := none, device := w.device.signOut purged late }
  | .mount => if w.page = none then some (w.setPage ⟨some w.device.next, .unloaded, false, none, none⟩)
      else none
  | .unmount => some { w with page := none }
  | .loaded => w.onPage w.loads fun p => w.setPage { p.set (restored w.device.draft) with load := none }
  | .loadFails => w.onPage w.loads fun p => w.setPage { p with load := none }
  | .retryDraft => w.onPage (fun p => p.load = none ∧ p.state.ready = false) fun p =>
    w.setPage { p with load := some w.device.next }
  | .effect => w.onPage (fun p => p.unsaved ∧ p.state.ready) fun p =>
    { w with device := w.device.persist p.state, page := some { p with unsaved := false } }
  | .write succeeds => w.write succeeds
  | .change id quantity => w.onPage Page.free fun p =>
      w.setPage (p.setQuantities (changed p.state.quantities id quantity))
  | .add id minimum => w.onPage Page.free fun p =>
      w.setPage (p.setQuantities (added p.state.quantities id minimum))
  | .clear => w.onPage Page.free fun p => w.setPage (p.setQuantities [])
  | .dropUnavailable ids => w.onPage (fun p => p.state.ready ∧ p.state.attempt = none) fun p =>
    w.setPage (p.setQuantities (p.state.quantities.filter fun i => i.productId ∉ ids))
  | .openCheckout resolved => w.onPage (fun p => p.state.ready ∧ p.sending = none ∧ p.state.quantities ≠ [] ∧
      (p.state.attempt ≠ none ∨ ∀ i ∈ p.state.quantities, i.productId ∈ resolved)) fun p =>
    w.setPage { p with checkout := some (buildCart resolved p.state.quantities) }
  | .closeCheckout => w.onPage (fun p => p.sending = none ∧ p.state.attempt = none) fun p =>
    w.setPage { p with checkout := none }
  | .send resolved key => w.page.bind fun p => p.checkout.bind fun snapshot =>
    if p.state.ready ∧ p.sending = none then
      match p.state.attempt with
      | some a => some (w.request { p with unsaved := true } a true)
      | none =>
        if snapshot ≠ [] ∧ (∀ i ∈ p.state.quantities, i.productId ∈ resolved) ∧
          ∀ a ∈ w.net.issued, a.key ≠ key then
          some (w.submit p snapshot key)
        else none
    else none
  | .receive reply => w.page.bind fun p => match p.sending with
    | some (.requested n a previous) =>
      if (n, reply) ∈ w.net.answers then some (w.receive p a previous reply) else none
    | _ => none
  | .noAnswer => w.page.bind fun p => match p.sending with
    | some (.requested _ _ _) => some (w.setPage { p with sending := none })
    | _ => none
  | .serve n =>
    if n ∈ w.net.inFlight then
      (w.net.requests[n]?).map fun r => { w with net := w.net.serve n r.attempt }
    else none
  | .refuse n status conflictKey =>
    if n ∈ w.net.inFlight then some { w with net := w.net.answer n (.refused status conflictKey) } else none
  | .expire key => some { w with net := { w.net with rows := w.net.rows.filter fun r => r.key ≠ key } }

def run (w : World) (es : List Event) : Option World := es.foldlM step w

end World

end GManager.Cart
