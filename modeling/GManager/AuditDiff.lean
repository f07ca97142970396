import GManager.Redaction
import Mathlib.Data.List.Infix
import Mathlib.Data.Nat.Digits.Defs

/-!
# What an audit entry has changed

`auditDiff.ts`: the state before and after an audited action is compared member by member. A change names
its place by a path as in a JSON pointer, and shows what stood there and what stands there now. Texts are
those of the browser's language, lists of code units; numbers are whatever `===` compares.
-/

namespace GManager.Audit

abbrev Text := List CodeUnit

/-- What is not an object in the browser's language. -/
inductive Scalar (ν : Type)
  | null
  | bool (value : Bool)
  | number (value : ν)
  | string (value : Text)
  deriving DecidableEq, Repr

/-- What `JSON.parse` returns; the members of an object in the order of `Object.keys`. -/
inductive JsonValue (ν : Type)
  | scalar (value : Scalar ν)
  | array (items : List (JsonValue ν))
  | object (members : List (Text × JsonValue ν))

/-- `none` is `absent`. -/
abbrev ChangeValue (ν : Type) := Option (JsonValue ν)

structure AuditChange (ν : Type) where
  path : Text
  label : Text
  before : ChangeValue ν
  after : ChangeValue ν

variable {ν : Type}

/-! ### Paths -/

/-- A step from a value into it. -/
inductive Token
  | key (name : Text)
  | index (i : ℕ)
  deriving DecidableEq, Repr

/-- `replaceAll` of one code unit. -/
def replaceUnit (c : CodeUnit) (word : Text) (s : Text) : Text :=
  s.flatMap fun x => if x = c then word else [x]

/-- `pointer`. -/
def pointer (key : Text) : Text :=
  replaceUnit (unit '/') (units "~1") (replaceUnit (unit '~') (units "~0") key)

/-- An index as text. -/
def decimal (i : ℕ) : Text := (Nat.toDigits 10 i).map unit

def Token.segment : Token → Text
  | key name => pointer name
  | index i => decimal i

def pathText (ts : List Token) : Text := ts.flatMap fun t => unit '/' :: t.segment

/-! ### Comparing -/

namespace ChangeValue

variable (v : ChangeValue ν)

/-- `object`. -/
def isObject : Bool :=
  match v with
  | some (.object _) => true
  | _ => false

def members : List (Text × JsonValue ν) :=
  match v with
  | some (.object members) => members
  | _ => []

/-- What `t` leads to. -/
def at? (t : Token) : ChangeValue ν :=
  match v, t with
  | some (.object members), .key name => (members.find? fun m => m.1 = name).map Prod.snd
  | some (.array items), .index i => items[i]?
  | _, _ => none

def get (ts : List Token) : ChangeValue ν := ts.foldl at? v

end ChangeValue

open ChangeValue

/-- `===`; two containers are never the same one. -/
def identical [DecidableEq ν] (left right : ChangeValue ν) : Bool :=
  match left, right with
  | none, none => true
  | some (.scalar x), some (.scalar y) => x = y
  | _, _ => false

/-- The names that a set of those of both holds. -/
def keys (left right : ChangeValue ν) : List Text :=
  let names := left.members.map Prod.fst
  names ++ (right.members.map Prod.fst).filter fun name => name ∉ names

/-- Where the comparison goes on. -/
def children (left right : ChangeValue ν) : Option (List Token) :=
  if (left.isObject ∧ (right.isObject ∨ right.isNone)) ∨ (right.isObject ∧ left.isNone) then
    if keys left right ≠ [] then some ((keys left right).map .key) else none
  else
    match left, right with
    | some (.array xs), some (.array ys) => some ((List.range (max xs.length ys.length)).map .index)
    | _, _ => none

/-- Two objects without members. -/
def bothEmpty (left right : ChangeValue ν) : Bool :=
  left.isObject ∧ right.isObject ∧ left.members = [] ∧ right.members = []

def childLabel (label : Text) : Token → Text
  | .key name => (if label = [] then [] else label ++ units " › ") ++ name
  | .index i => (if label = [] then units "Niz" else label) ++ unit '[' :: decimal i ++ [unit ']']

structure Walked (ν : Type) where
  visited : ℕ
  changes : List (AuditChange ν)

/-- `walk` with so many levels left; `none` is the error `Comparison limit`. -/
def walk [DecidableEq ν] : ℕ → ChangeValue ν → ChangeValue ν → Text → Text → Walked ν → Option (Walked ν)
  | 0, _, _, _, _, _ => none
  | levels + 1, left, right, path, label, s =>
    if 2000 < s.visited + 1 then none
    else
      let s := { s with visited := s.visited + 1 }
      if identical left right then some s
      else
        match children left right with
        | some ts =>
          ts.foldlM (fun s t => walk levels (left.at? t) (right.at? t) (path ++ unit '/' :: t.segment)
            (childLabel label t) s) s
        | none =>
          -- empty objects compare equal
          if bothEmpty left right then some s
          else
            let label := if label = [] then units "Celo stanje" else label
            some { s with changes := s.changes ++ [⟨path, label, left, right⟩] }

inductive Snapshot (ν : Type)
  | missing
  | json (raw : Text) (value : JsonValue ν)
  | text (raw : Text)

namespace Snapshot

def raw : Snapshot ν → Text
  | missing => []
  | json raw _ | text raw => raw

def value : Snapshot ν → ChangeValue ν
  | missing => none
  | json _ value => some value
  | text raw => some (.scalar (.string raw))

def isText : Snapshot ν → Bool
  | text _ => true
  | _ => false

end Snapshot

structure Comparison (ν : Type) where
  changes : List (AuditChange ν)
  limited : Bool

def compareSnapshots [DecidableEq ν] (before after : Snapshot ν) : Comparison ν :=
  if before.isText ∨ after.isText then
    -- one text is another kind of snapshot than the other
    if before.raw ≠ after.raw ∨ before.isText ≠ after.isText then
      ⟨[⟨[], units "Ceo zapis (tekst)", before.value, after.value⟩], false⟩
    else ⟨[], false⟩
  else
    match walk 25 before.value after.value [] [] ⟨0, []⟩ with
    | some s => ⟨s.changes, false⟩
    | none => ⟨[], true⟩

end GManager.Audit
