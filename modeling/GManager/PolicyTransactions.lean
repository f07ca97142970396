import Mathlib.Data.List.Basic
import Mathlib.Data.Nat.Notation

/-!
# The transactions of the Windows policy

`windows-enforcement.ps1`: the client adds rules of its own to the local AppLocker policy of a station, next
to those of others, and takes them out again. A journal names its rules, so that a transaction that was
interrupted can be undone. A transaction is the list of the states that its writes lead through; wherever it
fails or the station loses its power, it stops behind some of them. The startup of the Windows service, the
probe files and the log are left out.
-/

namespace GManager.AppLocker

inductive RuleType
  | exe
  | script
  | msi
  | dll
  | appx
  deriving DecidableEq, Repr

def RuleType.all : List RuleType := [.exe, .script, .msi, .dll, .appx]

def RuleType.index : RuleType → ℕ
  | exe => 0
  | script => 1
  | msi => 2
  | dll => 3
  | appx => 4

/-- `EnforcementMode`. -/
inductive Mode
  | enabled
  | auditOnly
  | notConfigured
  deriving DecidableEq, Repr

inductive Effect
  | allow
  | deny
  deriving DecidableEq, Repr

/-- A GUID that the client has drawn, or any other. -/
inductive Guid
  | drawn (n : ℕ)
  | other (n : ℕ)
  deriving DecidableEq, Repr

/-- Everything but the exceptions, or what else can be asked for. -/
inductive Condition
  | all (exceptions : List String)
  | other (xml : String)
  deriving DecidableEq, Repr

structure Rule where
  id : Guid
  sid : String
  action : Effect
  condition : Condition
  deriving DecidableEq, Repr

structure Collection where
  mode : Mode
  rules : List Rule
  deriving DecidableEq, Repr

/-- `none` is a collection that the policy does not have. -/
abbrev Policy := RuleType → Option Collection

namespace Policy

variable (p : Policy)

def rules (t : RuleType) : List Rule := ((p t).map (·.rules)).getD []

def set (t : RuleType) (c : Option Collection) : Policy := fun u => if u = t then c else p u

/-- `SelectSingleNode` by the identifier. -/
def find (id : Guid) : Option (RuleType × Rule) :=
  RuleType.all.findSome? fun t => ((p.rules t).find? fun r => r.id = id).map (t, ·)

def removeChild (t : RuleType) (id : Guid) : Policy :=
  p.set t ((p t).map fun c => { c with rules := c.rules.eraseP fun r => r.id = id })

end Policy

inductive Conflict
  | ruleChanged
  | modeChanged
  | inactiveRules
  deriving DecidableEq, Repr

inductive Phase
  | prepared
  | applying
  | verifying
  | restoring
  | applied
  | removed
  deriving DecidableEq, Repr

structure Journal where
  owned : List Guid
  pending : List Guid
  /-- The modes before; `some none` is `__Absent`. -/
  modes : RuleType → Option (Option Mode)
  ruleXml : Guid → Option Rule
  phase : Phase

namespace Journal

def prepared : Journal := ⟨[], [], fun _ => none, fun _ => none, .prepared⟩

def named (j : Journal) : List Guid := j.owned ++ j.pending

end Journal

/-! ### `Remove-GManagerOwnedRules` -/

/-- Takes out one rule, and remembers its collection as affected. -/
def removeRule (j : Journal) (s : Policy × List RuleType) (id : Guid) :
    Except Conflict (Policy × List RuleType) :=
  match s.1.find id with
  | none => .ok s
  | some (t, r) => if j.ruleXml id = some r then .ok (s.1.removeChild t id, t :: s.2) else .error .ruleChanged

def restoredMode (before : Option Mode) (c : Collection) : Option Collection :=
  match before with
  | none => if c.rules = [] then none else some { c with mode := .enabled }
  | some mode => some { c with mode := mode }

def restoreMode (j : Journal) (affected : List RuleType) (p : Policy) (t : RuleType) :
    Except Conflict Policy :=
  match j.modes t with
  | none => .ok p
  | some before =>
    -- an earlier write may already have finished
    if t ∉ affected then .ok p
    else
      match p t with
      | none => .error .modeChanged
      | some c => if c.mode = .enabled then .ok (p.set t (restoredMode before c)) else .error .modeChanged

def removeOwnedRules (p : Policy) (j : Journal) : Except Conflict Policy :=
  (j.named.foldlM (removeRule j) (p, [])).bind fun s => RuleType.all.foldlM (restoreMode j s.2) s.1

/-! ### `Add-GManagerRestrictions` -/

/-- Whom the rules are for and what they spare. -/
structure Restriction where
  sid : String
  executables : List String
  dlls : List String
  deriving DecidableEq, Repr

def Restriction.exceptions (c : Restriction) : RuleType → List String
  | .exe => c.executables
  | .dll => c.dlls
  | .script | .msi | .appx => []

def everyone : String := "S-1-1-0"

/-- The rules that are added to the present ones of a collection, with identifiers from `n` on. -/
def addedRules (n : ℕ) (c : Restriction) (t : RuleType) (present : List Rule) : List Rule :=
  (if present = [] then [⟨.drawn (n + 3 * t.index), everyone, .allow, .all []⟩] else []) ++
    ⟨.drawn (n + 3 * t.index + 1), c.sid, .deny, .all (c.exceptions t)⟩ ::
    (if c.exceptions t = [] then [] else [⟨.drawn (n + 3 * t.index + 2), c.sid, .allow, .all []⟩])

structure Artifact where
  policy : Policy
  rules : RuleType → List Rule
  modes : RuleType → Option Mode

/-- Rules of others that are not enforced are not switched on. -/
def inactive (p : Policy) : Bool :=
  RuleType.all.any fun t => (p t).any fun c => c.mode ≠ .enabled ∧ c.rules ≠ []

def addRestrictions (n : ℕ) (c : Restriction) (p : Policy) : Except Conflict Artifact :=
  if inactive p then .error .inactiveRules
  else
    let rules := fun t => addedRules n c t (p.rules t)
    .ok ⟨fun t => some ⟨.enabled, p.rules t ++ rules t⟩, rules, fun t => (p t).map (·.mode)⟩

/-- How many identifiers `addedRules` may take. -/
def draws : ℕ := 15

def Artifact.all (a : Artifact) : List Rule := RuleType.all.flatMap a.rules

def Artifact.ids (a : Artifact) : List Guid := a.all.map (·.id)

/-- What is known of the rules once these are added. -/
def Artifact.known (a : Artifact) (ruleXml : Guid → Option Rule) : Guid → Option Rule :=
  fun id => (a.all.find? fun r => r.id = id).or (ruleXml id)

/-- The journal of these rules alone. -/
def Artifact.journal (a : Artifact) (phase : Phase) : Journal :=
  ⟨a.ids, [], fun t => some (a.modes t), a.known fun _ => none, phase⟩

/-! ### `Invoke-GManagerPolicyTransaction` -/

/-- What outlasts a transaction; `drawn` counts the identifiers that the client has drawn. -/
structure Station where
  policy : Policy
  journal : Option Journal
  drawn : ℕ

/-- `Suspend` is an `Apply` that spares no games. A verifying call first spares its probes. -/
inductive Action
  | apply (verify : Bool) (probes : List String) (c : Restriction)
  | remove

namespace Station

variable (s : Station)

def current : Journal := s.journal.getD .prepared

def withJournal (j : Journal) : Station := { s with journal := some j }

def store (p : Policy) : Station := { s with policy := p }

/-- The journal before the rules of `a` are written, with these named as owned. -/
def announce (owned : List Guid) (phase : Phase) (a : Artifact) : Station :=
  { s with
    journal := some ⟨owned, a.ids, fun t => some (a.modes t), a.known s.current.ruleXml, phase⟩
    drawn := s.drawn + draws }

def commit (a : Artifact) : Station := s.withJournal (a.journal .applied)

/-- The second half of an `Apply`: `cleaned` is the policy without rules of the client. -/
def finish (c : Restriction) (cleaned : Policy) : List Station :=
  match addRestrictions s.drawn c cleaned with
  | .error _ => []
  | .ok a =>
    -- the union can be undone on either side of the next write
    let announced := s.announce s.current.named .verifying a
    let stored := announced.store a.policy
    [announced, stored, stored.commit a]

/-- The first half of a verifying `Apply`, which spares the probes. -/
def probe (probes : List String) (c : Restriction) (cleaned : Policy) : List Station :=
  match addRestrictions s.drawn { c with executables := c.executables ++ probes } cleaned with
  | .error _ => []
  | .ok a =>
    let announced := s.announce s.current.owned .applying a
    let stored := announced.store a.policy
    announced :: stored ::
      match removeOwnedRules a.policy (a.journal .applying) with
      | .error _ => []
      | .ok cleaned => stored.finish c cleaned

def applyPolicy (verify : Bool) (probes : List String) (c : Restriction) : List Station :=
  let s := s.withJournal s.current
  s ::
    match removeOwnedRules s.policy s.current with
    | .error _ => []
    | .ok cleaned => if verify then s.probe probes c cleaned else s.finish c cleaned

def removePolicy : List Station :=
  match s.journal with
  | none => []
  | some j =>
    match removeOwnedRules s.policy j with
    | .error _ => []
    | .ok cleaned =>
      let restoring := s.withJournal { j with phase := .restoring }
      let stored := restoring.store cleaned
      restoring :: stored ::
        if j.named.any fun id => (cleaned.find id).isSome then []
        else [stored.withJournal { Journal.prepared with phase := .removed }]

/-- The states behind the writes of a transaction that nothing stops. -/
def transaction : Action → List Station
  | .apply verify probes c => s.applyPolicy verify probes c
  | .remove => s.removePolicy

/-- The state behind so many writes. -/
def interrupted (a : Action) (writes : ℕ) : Station := ((s.transaction a).take writes).getLastD s

end Station

inductive Event
  | transaction (a : Action) (writes : ℕ)
  /-- An administrator writes the policy. -/
  | edit (p : Policy)

def Rule.isOwn (r : Rule) : Bool :=
  match r.id with
  | .drawn _ => true
  | .other _ => false

/-- The identifiers of the client's rules. -/
def Policy.own (p : Policy) : List Guid :=
  RuleType.all.flatMap fun t => ((p.rules t).filter (·.isOwn)).map (·.id)

/-- The rules of others. -/
def Policy.foreign (p : Policy) (t : RuleType) : List Rule := (p.rules t).filter fun r => !r.isOwn

namespace Station

/-- An administrator may take out or change rules of the client. A policy that brings one back, as from an
export of before, is not among the edits: nothing happens then. -/
def step (s : Station) : Event → Station
  | .transaction a writes => s.interrupted a writes
  | .edit p => if p.own.isSublist s.policy.own then s.store p else s

def run (s : Station) (es : List Event) : Station := es.foldl step s

end Station

end GManager.AppLocker
