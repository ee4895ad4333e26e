import PhasedWorkload.Quantity.Rate
import PhasedWorkload.Text.Quoted

/-! # What is wrong with data

A reader of a tree says which field, type or value it does not accept. The two file formats differ only
in how they show a double.
-/
namespace PhasedWorkload

inductive FloatForm where
  | pointed
  | data
deriving DecidableEq, Repr

def FloatForm.show : FloatForm → Binary64 → String
  | .pointed, x => x.toPointedText
  | .data, x => x.toDataText

inductive Found where
  | null
  | bool (value : Bool)
  | int (value : Int)
  | float (value : Binary64)
  | text (value : String)
  | list
  | table
deriving DecidableEq, Repr

def Found.message (form : FloatForm) : Found → String
  | .null => "null"
  | .bool b => "boolean `" ++ (if b then "true" else "false") ++ "`"
  | .int n => "integer `" ++ toString n ++ "`"
  | .float x => "floating point `" ++ form.show x ++ "`"
  | .text s => "string " ++ Text.quoted s
  | .list => "sequence"
  | .table => "map"

inductive DataFault where
  | missingField (name : String)
  | duplicateField (name : String)
  | unknownVariant (found : String) (expected : List String)
  | invalidType (found : Found) (expected : String)
  | invalidValue (found : Found) (expected : String)
  | invalidLength (length : Nat) (expected : String)
  | noScalar
  | timeSpan (cause : TimeSpan.ReadError)
  | count (cause : Count.ReadError)
  | rate (cause : Rate.ReadError)
deriving DecidableEq, Repr

def DataFault.message (form : FloatForm) : DataFault → String
  | .missingField name => "missing field `" ++ name ++ "`"
  | .duplicateField name => "duplicate field `" ++ name ++ "`"
  | .unknownVariant found expected =>
    "unknown variant `" ++ found ++ "`, expected one of " ++
      ", ".intercalate (expected.map fun name => "`" ++ name ++ "`")
  | .invalidType found expected => "invalid type: " ++ found.message form ++ ", expected " ++ expected
  | .invalidValue found expected => "invalid value: " ++ found.message form ++ ", expected " ++ expected
  | .invalidLength length expected => "invalid length " ++ toString length ++ ", expected " ++ expected
  | .noScalar => "data did not match any variant of untagged enum RawSpec"
  | .timeSpan cause => cause.message
  | .count cause => cause.message
  | .rate cause => cause.message

/-- Why a text could not be read: it breaks the grammar of its format, or its data are refused. -/
inductive ReadFault where
  | grammar
  | data (fault : DataFault)
deriving DecidableEq, Repr

/-- The text of a fault in the data; a break of the grammar has none of its own. -/
def ReadFault.message? (form : FloatForm) : ReadFault → Option String
  | .grammar => none
  | .data fault => some (fault.message form)

end PhasedWorkload
