import ArcadeUplink.Number.Decimal

/-!
# Outcomes

How a call to the server can fail, and the codes by which the host learns how
its request went.
-/

namespace ArcadeUplink

/-- How a request of the host went. -/
inductive ResultCode where
  | success
  | unknown
  | authFailed
  | notPaired
  | apiError
  | fileError
deriving DecidableEq, Repr

namespace ResultCode

/-- Every code, in the order of the numbers. -/
def all : List ResultCode := [success, unknown, authFailed, notPaired, apiError, fileError]

def toNat : ResultCode → Nat
  | success => 0
  | unknown => 1
  | authFailed => 2
  | notPaired => 3
  | apiError => 4
  | fileError => 5

def name : ResultCode → String
  | success => "success"
  | unknown => "unknown"
  | authFailed => "auth_failed"
  | notPaired => "not_paired"
  | apiError => "api_error"
  | fileError => "file_error"

def isSuccess (c : ResultCode) : Bool := c = success

end ResultCode

/-- Why a call to the server failed. -/
inductive CallError where
  /-- The server refused. -/
  | status (code : Nat) (body : String)
  /-- The server could not be reached. -/
  | connection (context : String)
  /-- The answer could not be understood. -/
  | invalidResponse (context : String)
deriving DecidableEq, Repr

namespace CallError

def message : CallError → String
  | status code body => "Server replied with status " ++ Decimal.natText code ++ ": " ++ body
  | connection context => "Connection failed: " ++ context
  | invalidResponse context => "Invalid server response: " ++ context

/-- The code by which the host learns of a failure: all of them are the server's. -/
def code (_ : CallError) : ResultCode := .apiError

end CallError

end ArcadeUplink
