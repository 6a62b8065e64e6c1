import Holdem.Table.Config
import Holdem.Text.Blank
import Holdem.Text.Numeral

/-!
# Settings at startup

The settings of the tables that are opened when the house opens are read from named variables.
An unset variable leaves the default. The first variable that cannot be read is reported.
-/
namespace Holdem

/-- The most tables that are opened at startup. -/
def maxStartupTables : Nat := 64

inductive StartupError where
  | invalid (name reason : String)
  | table (e : TableError)
deriving Repr, DecidableEq

def StartupError.message : StartupError → String
  | invalid name reason => "Invalid configuration for " ++ name ++ ": " ++ reason
  | table e => "Invalid table defaults: " ++ e.message

/-- What every table starts with, and how many of them there are. -/
structure Startup where
  tableDefaults : TableConfig := {}
  tableCount : Nat := 1
deriving Repr, DecidableEq

namespace Startup

/-- The values of the variables that are set. -/
abbrev Variables := String → Option String

/-- The value of a variable cannot be read, for a reason. -/
def unreadable (name value reason : String) : StartupError :=
  .invalid name ("'" ++ value ++ "': " ++ reason)

/-- Reads a number up to `limit`. -/
def readNumber (limit : Nat) (name value : String) : Except StartupError Nat :=
  match readNumeral limit (withoutBlanks value) with
  | .ok n => .ok n
  | .error e => .error (unreadable name value e.message)

def readBool (name value : String) : Except StartupError Bool :=
  let word := String.ofList (withoutBlanks value)
  if word = "true" then .ok true
  else if word = "false" then .ok false
  else .error (unreadable name value "provided string was not \x60true\x60 or \x60false\x60")

/-- Reads a variable, or keeps the default if it is not set. -/
def setting {α : Type} (vars : Variables) (read : String → String → Except StartupError α)
    (name : String) (default : α) : Except StartupError α :=
  match vars name with
  | some value => read name value
  | none => .ok default

def maxWord64 : Nat := 18446744073709551615

def maxWord16 : Nat := 65535

/-- Reads the settings of the tables. -/
def readTable (vars : Variables) : Except StartupError TableConfig := do
  let base : TableConfig := {}
  let maxPlayers ← setting vars (readNumber maxWord64) "TABLE_MAX_PLAYERS" base.maxPlayers
  let smallBlind ← setting vars (readNumber maxChips) "TABLE_SMALL_BLIND" base.smallBlind
  let bigBlind ← setting vars (readNumber maxChips) "TABLE_BIG_BLIND" base.bigBlind
  let minBuyInBlinds ←
    setting vars (readNumber maxWord16) "TABLE_MIN_BUY_IN_BB" base.minBuyInBlinds
  let maxBuyInBlinds ←
    setting vars (readNumber maxWord16) "TABLE_MAX_BUY_IN_BB" base.maxBuyInBlinds
  let autoStart ← setting vars readBool "TABLE_AUTO_START" base.autoStart
  let shuffleSeed ←
    setting vars (fun name value => (readNumber maxWord64 name value).map some)
      "SHUFFLE_SEED" base.shuffleSeed
  return {
    name := (vars "TABLE_NAME").getD base.name
    maxPlayers, smallBlind, bigBlind, minBuyInBlinds, maxBuyInBlinds, autoStart, shuffleSeed }

/-- Reads all settings. A number of tables that is given is not looked up. -/
def read (vars : Variables) (tables : Option Nat) : Except StartupError Startup := do
  let tableDefaults ← readTable vars
  let tableCount ←
    match tables with
    | some n => .ok n
    | none => setting vars (readNumber maxWord64) "MAX_TABLES" 1
  return { tableDefaults, tableCount }

def validate (s : Startup) : Except StartupError Unit :=
  if s.tableCount = 0 ∨ maxStartupTables < s.tableCount then
    .error (.invalid "MAX_TABLES" s!"Must be between 1 and {maxStartupTables}")
  else s.tableDefaults.validate.mapError .table

/-- The settings of the startup table at `index`, counted from zero. With several tables their
names are numbered. Their seeds, which go round at 64 bits, are spread by the index. -/
def table (s : Startup) (index : Nat) : TableConfig :=
  let base := s.tableDefaults
  { base with
    name := if 1 < s.tableCount then base.name ++ s!" {index + 1}" else base.name
    shuffleSeed := base.shuffleSeed.map fun seed => (seed + index) % (maxWord64 + 1) }

end Startup
end Holdem
