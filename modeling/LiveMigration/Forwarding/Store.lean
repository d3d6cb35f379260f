import LiveMigration.Forwarding.Tables

/-!
# The forwarding store

Tables and the leases on them. An address under lease is written by nobody but the job that holds the
lease; a batch is applied as a whole or refused.
-/

namespace LiveMigration

structure Store where
  tables : Tables
  /-- From an endpoint, or an address reserved for its replacement, to the job that migrates it. -/
  leases : Table Addr JobId
  deriving DecidableEq, Inhabited

structure Lease where
  endpoint : Addr
  replacement : Option Addr
  job : JobId
  deriving DecidableEq, Repr

namespace Store

def empty : Store := ⟨.empty, ∅⟩

def checkLease (leases : Table Addr JobId) (holder : Option JobId) : List Addr → Except Error Unit
  | [] => .ok ()
  | addr :: rest =>
    match leases.get? addr with
    | some owner =>
      if some owner = holder then checkLease leases holder rest
      else .error (.conflict (.leased addr owner))
    | none => checkLease leases holder rest

/-- Apply operations in order, each under the leases; says whether any reported a change. -/
def stage (leases : Table Addr JobId) (holder : Option JobId) (t : Tables) :
    List Op → Except Error (Tables × Bool)
  | [] => .ok (t, false)
  | op :: ops => do
    checkLease leases holder (t.touched op)
    let (t, changed) ← t.apply op
    let (t, more) ← stage leases holder t ops
    return (t, changed || more)

/-- Apply a batch for a holder. Tables that report no change are kept as they were. -/
def applyAs (s : Store) (holder : Option JobId) (b : Batch) : Except Error (Store × Bool) := do
  let (t, changed) ← stage s.leases holder s.tables b.ops
  return (if changed then { s with tables := t } else s, changed)

def apply (s : Store) (b : Batch) : Except Error (Store × Bool) := s.applyAs none b

def applyOp (s : Store) (op : Op) : Except Error (Store × Bool) := s.apply ⟨[op]⟩

/-- Lease an endpoint to a job and reserve the address that will replace it, which must be new. -/
def lease (s : Store) (endpoint : Addr) (replacement : Option Addr) (job : JobId) :
    Except Error (Store × Lease) :=
  if !s.tables.endpoints.contains endpoint then .error (.notFound (.endpoint endpoint))
  else
    match s.leases.get? endpoint, replacement with
    | some owner, _ => .error (.conflict (.inFlight endpoint owner))
    | none, none =>
      .ok ({ s with leases := s.leases.insert endpoint job }, ⟨endpoint, none, job⟩)
    | none, some addr =>
      if s.tables.endpoints.contains addr then .error (.conflict (.registered addr))
      else
        match s.leases.get? addr with
        | some owner => .error (.conflict (.reserved addr owner))
        | none =>
          .ok ({ s with leases := (s.leases.insert addr job).insert endpoint job },
            ⟨endpoint, some addr, job⟩)

def releaseAddr (s : Store) (addr : Addr) (job : JobId) : Store :=
  if s.leases.get? addr = some job then { s with leases := s.leases.erase addr } else s

def release (s : Store) (l : Lease) : Store :=
  let s := s.releaseAddr l.endpoint l.job
  match l.replacement with
  | none => s
  | some addr => s.releaseAddr addr l.job

/-- The changes that point an endpoint at another attachment. The hardware address stays as it is unless one
is given. -/
def moveBatch (s : Store) (e : Endpoint) (addr : Addr) (egress : EgressPort) (mac : Option Mac)
    (host : Option HostName) : Batch where
  ops := (host.map fun h => Op.putEndpoint (e.relocated h egress)).toList ++
    [.putRule ⟨addr, egress, mac <|> (s.tables.rules.get? addr).bind Rule.mac⟩]

def relocate (s : Store) (addr : Addr) (egress : EgressPort) (mac : Option Mac)
    (host : Option HostName) : Except Error (Store × Bool) :=
  match s.tables.endpoints.get? addr with
  | none => .error (.notFound (.endpoint addr))
  | some e => s.apply (s.moveBatch e addr egress mac host)

def teardownAll (s : Store) : Except Error (Store × Nat) := do
  let ops := s.tables.teardownOps
  let (s, _) ← s.apply ⟨ops⟩
  return (s, ops.length)

def shutdown (s : Store) : Store × Except Error Nat :=
  let s := { s with leases := ∅ }
  match s.teardownAll with
  | .ok (s, n) => (s, .ok n)
  | .error e => (s, .error e)

end Store

end LiveMigration
