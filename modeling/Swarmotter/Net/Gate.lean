import Swarmotter.Net.Addr

open swarmotter.net

namespace swarmotter.containment_gate

/-- The process-wide authority on torrent traffic. Its atomics and locks are the fields here. -/
structure ContainmentGate where
  allowed : Bool
  stopped : Bool
  generation : UInt64
  status : Option NetworkContainmentStatus
  detail : String
  deriving DecidableEq

namespace ContainmentGate

def new (traffic_allowed : Bool) : ContainmentGate := ⟨traffic_allowed, false, 0, none, ""⟩

def traffic_allowed (self : ContainmentGate) : Bool := !self.stopped && self.allowed

/-- Deny traffic. Every block is a cancellation edge, also while already blocked. -/
def block (self : ContainmentGate) (status : NetworkContainmentStatus) (detail : String) : ContainmentGate :=
  { self with allowed := false, status := some status, detail := detail, generation := self.generation + 1 }

/-- Permit traffic, unless the daemon is stopping. The generation advances only if it was denied. -/
def allow (self : ContainmentGate) : ContainmentGate :=
  if self.stopped then self
  else if self.allowed then self
  else { self with allowed := true, generation := self.generation + 1, status := none, detail := "" }

def stop (self : ContainmentGate) : ContainmentGate :=
  { self with stopped := true }.block .BlockedFailClosed "daemon stopping"

def enforce (self : ContainmentGate) : Result Unit :=
  if self.traffic_allowed then pure ()
  else
    let status := self.status.getD .BlockedFailClosed
    let detail := if self.detail = "" then "" else s!": {self.detail}"
    .error (.NetworkBlocked s!"torrent data plane blocked: {status.as_str}{detail}")

@[simp]
theorem traffic_allowed_block (self : ContainmentGate) (status : NetworkContainmentStatus) (detail : String) :
    (self.block status detail).traffic_allowed = false := by
  simp [traffic_allowed, block]

theorem allow_of_traffic_allowed {self : ContainmentGate} (h : self.traffic_allowed = true) : self.allow = self := by
  simp only [traffic_allowed, Bool.and_eq_true, Bool.not_eq_true'] at h
  simp [allow, h.1, h.2]

theorem enforce_eq_ok_iff {self : ContainmentGate} : self.enforce = .ok () ↔ self.traffic_allowed = true := by
  cases h : self.traffic_allowed <;> simp [enforce, h]

end ContainmentGate

end swarmotter.containment_gate
