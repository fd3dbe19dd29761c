import Monitostr.Utils.Platform

/-! # `model/log_buffer.hpp` -/

namespace Monitostr.Model
set_option autoImplicit false

inductive LogLevel
  | info
  | warn
  | error
  deriving DecidableEq, Repr

/-- `ToString`. -/
def LogLevel.toText : LogLevel → Str
  | .info => lit "INFO"
  | .warn => lit "WARN"
  | .error => lit "ERROR"

structure LogEntry where
  timestamp : Str
  level : LogLevel := .info
  message : Str
  deriving DecidableEq

def twoDigits (n : ℕ) : Str := [UInt8.ofNat (48 + n / 10), UInt8.ofNat (48 + n % 10)]

/-- `NowString`: `std::put_time` with `%H:%M:%S`. -/
def nowString (hour minute second : ℕ) : Str :=
  twoDigits hour ++ lit ":" ++ twoDigits minute ++ lit ":" ++ twoDigits second

structure LogBuffer where
  maxEntries : ℕ := 400
  entries : List LogEntry := []
  deriving DecidableEq

def LogBuffer.push (log : LogBuffer) (m : Moment) (level : LogLevel) (message : Str) : LogBuffer :=
  let entries := log.entries ++ [{ timestamp := m.timestamp, level := level, message := message }]
  { log with entries := entries.drop (entries.length - log.maxEntries) }

def LogBuffer.clear (log : LogBuffer) : LogBuffer := { log with entries := [] }

def LogBuffer.snapshot (log : LogBuffer) : List LogEntry := log.entries

end Monitostr.Model
