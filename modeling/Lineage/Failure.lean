import Lineage.Text.Printable

/-! Why an operation did not come about. -/

namespace Lineage

/-- `setup` is a fault in what a program was started with; its text is the whole message. -/
inductive Failure where
  | database (detail : String)
  | file (detail : String)
  | config (detail : String)
  | content (detail : String)
  | queue (detail : String)
  | task (detail : String)
  | invalidInput (detail : String)
  | setup (text : String)
deriving DecidableEq, Repr

namespace Failure

/-- The message that is shown, logged and kept with queue entries. -/
def message : Failure → String
  | database detail => "Database error: " ++ detail
  | file detail => "IO error: " ++ detail
  | config detail => "Configuration error: " ++ detail
  | content detail => "Serialization error: " ++ detail
  | queue detail => "Queue error: " ++ detail
  | task detail => "Task error: " ++ detail
  | invalidInput detail => "Invalid input: " ++ detail
  | setup text => text

/-- The kind and the quoted detail, for those failures that are no more than a text. -/
def inspection? : Failure → Option String
  | config detail => some ("Config(" ++ Text.quoted detail ++ ")")
  | queue detail => some ("Queue(" ++ Text.quoted detail ++ ")")
  | task detail => some ("Task(" ++ Text.quoted detail ++ ")")
  | invalidInput detail => some ("InvalidInput(" ++ Text.quoted detail ++ ")")
  | _ => none

/-- Whether another failure lies behind this one: one of the database, of the file
system or of reading a text. -/
def hasCause : Failure → Bool
  | database _ | file _ | content _ => true
  | _ => false

end Failure

end Lineage
