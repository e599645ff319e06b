import EtherLang.Text.Blank
import EtherLang.Text.Decimal

/-!
# Settings

A user adjusts the interpreter by settings, which are texts with names. A setting that is not
understood counts as not given.
-/

namespace EtherLang

/-- The settings that are given. -/
structure Settings where
  entries : List (String × String)
  deriving DecidableEq, Repr

namespace Settings

/-- No settings at all. -/
def none : Settings :=
  ⟨[]⟩

/-- The text of a setting. -/
def get? (settings : Settings) (name : String) : Option String :=
  settings.entries.lookup name

/-- Whether a setting is switched on. -/
def flag (settings : Settings) (name : String) : Bool :=
  (settings.get? name).any fun text =>
    ["1", "true", "yes", "on"].contains (Text.lower (Text.trim text))

/-- Whether errors are shown with a traceback. -/
def traceback (settings : Settings) : Bool :=
  settings.flag "ETHER_DEBUG_PY_TRACE"

/-- The least recursion limit that can be set. -/
def leastLimit : Nat := 100

/-- The recursion limit that is asked for; one that is too low is raised to the least. -/
def recursionLimit? (settings : Settings) : Option Nat := do
  let limit ← Text.readInt? (← settings.get? "ETHER_RECURSION_LIMIT")
  return max leastLimit limit.toNat

/-- A letter as a capital letter; of the letters outside ASCII only those matter that become an
ASCII capital. -/
def capital (c : Char) : Char :=
  if c == 'ı' then 'I' else if c == 'ſ' then 'S' else c.toUpper

/-- The level of a name: the higher, the fewer records are shown. -/
def levelOfName? (name : String) : Option Int :=
  match name with
  | "CRITICAL" | "FATAL" => some 50
  | "ERROR" => some 40
  | "WARNING" | "WARN" => some 30
  | "INFO" => some 20
  | "DEBUG" => some 10
  | "NOTSET" => some 0
  | _ => Option.none

/-- The level of the records that are shown if the setting does not say. -/
def defaultLevel : Int := 30

/-- The level from which on records are shown. -/
def logLevel (settings : Settings) (default : Int) : Int :=
  match settings.get? "ETHER_LOG_LEVEL" with
  | Option.none => default
  | some text =>
    let name := String.ofList ((Text.trim text).toList.map capital)
    (levelOfName? name).getD default

/-- Whether the records of what the interpreter does are shown. -/
def showsEvents (settings : Settings) : Bool :=
  settings.logLevel defaultLevel ≤ 10

end Settings

end EtherLang
