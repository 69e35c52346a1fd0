/-! The ways in which a command fails, and how each is worded. -/
namespace KeyStore

inductive SettingError
  | badRate
  | badNumber
  | notYesNo
  | unknownPolicy (name : String)
  | unknownParameter (name : String)
deriving DecidableEq, Repr

def SettingError.message : SettingError → String
  | badRate => "Invalid hz value"
  | badNumber => "Invalid value"
  | notYesNo => "argument must be 'yes' or 'no'"
  | unknownPolicy name => "invalid pubsub-overflow policy '" ++ name ++ "'"
  | unknownParameter name =>
    "Unknown option or number of arguments for CONFIG SET - '" ++ name ++ "'"

inductive Error
  | wrongType
  | notAnInteger
  | notAFloat
  | overflow
  | nanScore
  | noSuchKey
  | badSyntax
  | wrongArity (command : String)
  | unknownCommand (name : String)
  | invalidExpiry (command : String)
  | emptyCommand
  | notPositive
  | invalidCursor
  | unknownSubcommand (command : String) (name : String)
  | needsSubscriber (command : String)
  | badSetting (e : SettingError)
deriving DecidableEq, Repr

namespace Error

def code : Error → String
  | wrongType => "WRONGTYPE"
  | _ => "ERR"

def detail : Error → String
  | wrongType => "Operation against a key holding the wrong kind of value"
  | notAnInteger => "value is not an integer or out of range"
  | notAFloat => "value is not a valid float"
  | overflow => "increment or decrement would overflow"
  | nanScore => "resulting score is not a number (NaN)"
  | noSuchKey => "no such key"
  | badSyntax => "syntax error"
  | wrongArity command => "wrong number of arguments for '" ++ command ++ "' command"
  | unknownCommand name => "unknown command '" ++ name ++ "'"
  | invalidExpiry command => "invalid expire time in '" ++ command ++ "' command"
  | emptyCommand => "empty command"
  | notPositive => "value is out of range, must be positive"
  | invalidCursor => "invalid cursor"
  | unknownSubcommand command name =>
    "unknown subcommand or wrong number of arguments for " ++ command ++ " " ++ name
  | needsSubscriber command => "'" ++ command ++ "' requires a subscription handle"
  | badSetting e => e.message

def message (e : Error) : String := e.code ++ " " ++ e.detail

end Error
end KeyStore
