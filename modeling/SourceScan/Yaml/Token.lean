import SourceScan.Calendar.DateTime
import SourceScan.Number.Numeral
import SourceScan.Text.Quoted

/-!
# Tokens of a YAML text

The tokens into which a YAML text falls. The nesting of block collections shows in
tokens of its own, and a key is announced by a token in front of it. `Fault` lists
all that can be wrong with a text and with the values in it.
-/

namespace SourceScan.Yaml

inductive Directive where
  | version (major minor : Nat)
  | tag (handle start : Text)
  | other
  deriving DecidableEq, Repr

inductive Token where
  | directive (d : Directive)
  | documentStart
  | documentEnd
  | blockSequenceStart
  | blockMappingStart
  | blockEnd
  | flowSequenceStart
  | flowSequenceEnd
  | flowMappingStart
  | flowMappingEnd
  | blockEntry
  | flowEntry
  | key
  | value
  | alias (name : Text)
  | anchor (name : Text)
  | tag (handle : Option Text) (suffix : Text)
  | scalar (plain : Bool) (text : Text)
  deriving DecidableEq, Repr

inductive Fault where
  /-- The text is no YAML, or asks for something that has no value. -/
  | malformed
  /-- An escape for a code point beyond the last. -/
  | badCode
  /-- An escape for a number of more than 31 bits. -/
  | hugeCode
  | time (fault : Calendar.TimeFault)
  | badTimestamp
  | badInteger (base : Nat) (text : Text)
  | tooManyDigits (count : Nat)
  | badNumber (text : Text)
  | emptyNumber
  | badBool (text : Text)
  /-- An alias inside the node that it stands for.  The value that contains itself is left out
  here. -/
  | selfReference
  deriving DecidableEq, Repr

/-- The report of a fault. What exactly is wrong with a malformed text is not said. -/
def Fault.message : Fault → Text
  | .malformed => "<yaml>"
  | .badCode => "chr() arg not in range(0x110000)"
  | .hugeCode => "Python int too large to convert to C int"
  | .time fault => fault.message
  | .badTimestamp => "'NoneType' object has no attribute 'groupdict'"
  | .badInteger base text =>
      ("invalid literal for int() with base " : Text) ++ Text.ofNat base ++ (": " : Text) ++
        (Text.quoted text).take 200
  | .tooManyDigits count => Numeral.tooManyDigitsMessage count
  | .badNumber text => ("could not convert string to float: " : Text) ++ Text.quoted text
  | .emptyNumber => "string index out of range"
  | .badBool text => Text.quoted text
  | .selfReference => "a value that contains itself"

def Fault.isExpected : Fault → Bool
  | .hugeCode | .badTimestamp | .emptyNumber | .badBool _ | .selfReference => false
  | _ => true

end SourceScan.Yaml
