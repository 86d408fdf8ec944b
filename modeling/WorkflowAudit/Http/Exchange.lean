import WorkflowAudit.Dialogue
import WorkflowAudit.Http.Url

namespace WorkflowAudit.Http

structure Request where
  url : Url
  headers : List (String × String)
  deriving DecidableEq, Repr

structure Response where
  status : Nat
  body : ByteArray
  isComplete : Bool

namespace Response

def isNotFound (r : Response) : Bool := r.status = 404

def isSuccess (r : Response) : Bool := 200 ≤ r.status && r.status < 300

end Response

/-- A response, or none if the request could not be sent or was not answered. -/
abbrev Answer (_ : Request) : Type := Option Response

abbrev Exchange (α : Type) := Dialogue Answer α

def isHeaderChar (c : Char) : Bool := c = '\t' || (0x20 ≤ c.toNat && c ≠ '\x7f')

def isHeaderValue (s : String) : Bool := s.toList.all isHeaderChar

end WorkflowAudit.Http
