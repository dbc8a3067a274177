import Mathlib.Logic.Basic

/-!
# Log levels

A level is a bit of a mask, and a logger holds the mask of the levels it logs.
-/

namespace SampLogCore.Levels

/-- `samplog::LogLevel`. -/
abbrev LogLevel := UInt32

def NONE : LogLevel := 0
def DEBUG : LogLevel := 1
def INFO : LogLevel := 2
def WARNING : LogLevel := 4
def ERROR : LogLevel := 8
def FATAL : LogLevel := 16
def VERBOSE : LogLevel := 32

/-- `GetAllLogLevel`. -/
def GetAllLogLevel : LogLevel := DEBUG ||| INFO ||| WARNING ||| ERROR ||| FATAL ||| VERBOSE

/-- `Logger::IsLogLevel`, for a logger with the mask `Level`. -/
def IsLogLevel (Level log_level : LogLevel) : Bool := Level &&& log_level == log_level

end SampLogCore.Levels
