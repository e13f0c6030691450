import Dissection.Bytes.Basic
import Dissection.Frame.Layer
import Dissection.Record.Table

/-!
Extensions: whoever knows protocols that the dissector does not. Where a chain of
headers ends unclaimed, the extension is made an offer of the bytes behind it, and
answers with places to record. It touches the record table in no other way.
-/

namespace Dissection

/-- The bytes behind a chain of headers, offered to an extension. -/
structure Offer where
  hook : Hook
  captured : Bytes
  /-- Where the bytes that are not recognized begin. -/
  offset : Nat
  /-- The records found so far. -/
  table : RecordTable

/-- What an extension makes of an offer. -/
structure Answer where
  /-- The places to record, in order. -/
  places : List Placement
  /-- Whether the bytes were recognized. -/
  recognized : Bool
  deriving DecidableEq, Repr

/-- An extension answers each offer, knowing the offers made to it before. -/
structure Extension where
  respond : List Offer → Offer → Answer
  /-- The offers made so far, latest first. -/
  past : List Offer

namespace Extension

def ofFun (respond : List Offer → Offer → Answer) : Extension :=
  ⟨respond, []⟩

def idle : Extension :=
  ofFun fun _ _ => ⟨[], false⟩

/-- The answer to an offer, and the extension that remembers it. -/
def consult (extension : Extension) (offer : Offer) : Answer × Extension :=
  (extension.respond extension.past offer,
    { extension with past := offer :: extension.past })

end Extension

end Dissection
