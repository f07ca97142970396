import GManager.ClientRequests

/-!
# The station client as a system

The jobs of the client, one at a time, and what happens beside them: time passes, the deadline loop ticks,
an administrator and Windows change what the client only reads, and the machine may restart at any moment.
The network answers as it likes; a request whose answer is lost has still reached the server.
-/

namespace GManager.Client

/-- What has passed over the network: commands and leases handed out, acknowledgements that arrived. -/
structure Exchanges where
  delivered : List MachineCommand
  acknowledged : List ℤ
  lockAcknowledged : List (UUID × ℤ)
  leases : List SignedSessionLease

inductive Answer
  | done | lost
  | failed (status : Option ℕ)
  | canceled (requested : Bool)
  | policy (p : SignedStationPolicy)
  | lease (l : SignedSessionLease)
  | commands (cs : List MachineCommand)
  | session (s : CustomerSession)

/-- The outcome of a request that only has to arrive. -/
def Answer.outcome : Answer → Except Exn Unit
  | .done => .ok ()
  | .canceled requested => .error (.canceled requested)
  | .failed status => .error (.http status)
  | _ => .error (.http none)

/-- Whether the server has carried out the request. -/
def Answer.arrived : Answer → Bool
  | .done | .lost => true
  | _ => false

namespace Exchanges

def acknowledge (n : ℤ) (x : Exchanges) : Exchanges := { x with acknowledged := n :: x.acknowledged }

def acknowledgeLock (s : UUID) (n : ℤ) (x : Exchanges) : Exchanges :=
  { x with lockAcknowledged := (s, n) :: x.lockAcknowledged }

def deliver (cs : List MachineCommand) (x : Exchanges) : Exchanges :=
  { x with delivered := cs ++ x.delivered }

def handOut (l : SignedSessionLease) (x : Exchanges) : Exchanges := { x with leases := l :: x.leases }

/-- An answer that is not of the kind asked for is one that cannot be read. Polls deliver only commands
that the server offers. -/
def answer (offered : MachineCommand → Bool) :
    (r : MachineRequest) → Answer → Exchanges → Except Exn r.Reply × Exchanges
  | .configuration, .policy p, x => (.ok p, x)
  | .configuration, a, x => (a.outcome.bind fun _ => .error (.http none), x)
  | .lease, .lease l, x => (.ok l, x.handOut l)
  | .lease, a, x => (a.outcome.bind fun _ => .error (.http none), x)
  | .commands _, .commands cs, x => (.ok (cs.filter offered), x.deliver (cs.filter offered))
  | .commands _, a, x => (a.outcome.bind fun _ => .error (.http none), x)
  | .login .., .session s, x => (.ok s, x)
  | .login .., a, x => (a.outcome.bind fun _ => .error (.http none), x)
  | .ack n, a, x => (a.outcome, if a.arrived then x.acknowledge n else x)
  | .lockAck s n _, a, x => (a.outcome, if a.arrived then x.acknowledgeLock s n else x)
  | .authenticate, a, x => (a.outcome, x)
  | .heartbeat _, a, x => (a.outcome, x)
  | .logout _, a, x => (a.outcome, x)
  | .recoverSession _, a, x => (a.outcome, x)
  | .claimUpdate _, a, x => (a.outcome, x)

end Exchanges

inductive Move
  | pass (d : ℕ)
  | tick
  | tokenExpires
  | maintenanceFile (f : MaintenanceFile)
  | appIdentity (running : Bool)
  | policyTakes (d : ℕ)
  deriving DecidableEq, Repr

def Runtime.move (env : ClientEnvironment) (c : Runtime) : Move → Runtime
  | .pass d => { c with trusted := c.trusted + d }
  | .tick => c.tick env
  | .tokenExpires => { c with tokenFresh := false }
  | .maintenanceFile f => { c with maintenanceFile := f }
  | .appIdentity running => { c with appIdentityRunning := running }
  | .policyTakes d => { c with policyTakes := d }

inductive Job
  | refresh
  | handle (request : LocalRequest) (administrator : Bool)
  | shutdown
  deriving DecidableEq, Repr

def process (env : ClientEnvironment) : Job → ClientProc Bool
  | .refresh => do
    refresh env
    return true
  | .handle request administrator => handle env request administrator
  | .shutdown => do
    shutdown
    return true

/-- The client among a network that delivers the offered commands. -/
def client (env : ClientEnvironment) (offered : MachineCommand → Bool) :
    System Runtime Exchanges MachineRequest MachineRequest.Reply Exn Move Answer Job Instant Bool where
  move i w := (w.1.move env i, w.2)
  answer := Exchanges.answer offered
  job := process env
  restart utcNow c := c.restart env utcNow

abbrev ClientConfig := Config Runtime Exchanges MachineRequest MachineRequest.Reply Exn Job Bool

abbrev ClientEvent := Event Move Answer Job Instant

/-- A station on which the client was just installed. -/
def Runtime.installed : Runtime where
  view := .locked
  token := false
  tokenFresh := false
  preparingUntil := minValue
  recovery := none
  trusted := minValue
  maintenance := false
  locallyLocked := false
  commandGap := false
  errorCode := none
  policy := {
    version := 0, active := false, appliedActive := none, enforcementVerified := false, cached := none }
  snapshots := []
  maintenanceFile := .absent
  appIdentityRunning := true
  policyTakes := 0

/-- Its first start. -/
def firstStart (env : ClientEnvironment) (utcNow : Instant) : ClientConfig :=
  ⟨Runtime.installed.restart env utcNow, ⟨[], [], [], []⟩, none⟩

end GManager.Client
