import Mathlib.Data.List.Basic

/-!
# Filter rules

What the visual editor of filters keeps: rules with conditions and actions. A text field
of a rule is a list of characters, and a field that an action may lack is an `Option`.
-/

namespace E2Mail.Sieve

/-- Text as the frontend has it. -/
abbrev Text := List Char

/-- `SieveTestType`: `'header' | 'address' | 'exists' | 'true'`. -/
inductive SieveTestType
  | headerTest | addressTest | existsTest | trueTest
  deriving DecidableEq, Repr

/-- `SieveAddressPart`: `'' | 'domain' | 'localpart' | 'user'`. -/
inductive SieveAddressPart
  | whole | domain | localpart | user
  deriving DecidableEq, Repr

/-- `SieveConditionOp`: `'contains' | 'is' | 'matches'`. -/
inductive SieveConditionOp
  | containsOp | isOp | matchesOp
  deriving DecidableEq, Repr

/-- `'allof' | 'anyof'`. -/
inductive Join
  | allof | anyof
  deriving DecidableEq, Repr

/-- `SieveCondition`. -/
structure SieveCondition where
  /-- `test` -/
  test : SieveTestType
  /-- `part`, for addresses only -/
  part : SieveAddressPart
  /-- `op` -/
  op : SieveConditionOp
  /-- `negated` -/
  negated : Bool
  /-- `header`: several headers with commas between them -/
  header : Text
  /-- `value` -/
  value : Text
  deriving DecidableEq, Repr

/-- `SieveActionType`. -/
inductive SieveActionType
  | fileinto | redirect | reject | discard | keep | stop | setflag | addflag | removeflag
  deriving DecidableEq, Repr

/-- `SieveAction`. -/
structure SieveAction where
  /-- `type` -/
  type : SieveActionType
  /-- `mailbox`, for `fileinto`: several mailboxes with commas between them -/
  mailbox : Option Text := none
  /-- `copy`, for `fileinto` -/
  copy : Option Bool := none
  /-- `address`, for `redirect` -/
  address : Option Text := none
  /-- `text`, for `reject` -/
  text : Option Text := none
  /-- `flag`, for the actions on flags: several flags with commas between them -/
  flag : Option Text := none
  deriving DecidableEq, Repr

/-- `SieveRule`. -/
structure SieveRule where
  /-- `name` -/
  name : Text
  /-- `enabled` -/
  enabled : Bool
  /-- `conditionJoin` -/
  conditionJoin : Join
  /-- `conditions` -/
  conditions : List SieveCondition
  /-- `actions` -/
  actions : List SieveAction
  deriving DecidableEq, Repr

/-- The name in a script. -/
def SieveTestType.word : SieveTestType → Text
  | .headerTest => "header".toList
  | .addressTest => "address".toList
  | .existsTest => "exists".toList
  | .trueTest => "true".toList

/-- The name in a script. -/
def SieveAddressPart.word : SieveAddressPart → Text
  | .whole => []
  | .domain => "domain".toList
  | .localpart => "localpart".toList
  | .user => "user".toList

/-- The name in a script. -/
def SieveConditionOp.word : SieveConditionOp → Text
  | .containsOp => "contains".toList
  | .isOp => "is".toList
  | .matchesOp => "matches".toList

/-- The name in a script. -/
def Join.word : Join → Text
  | .allof => "allof".toList
  | .anyof => "anyof".toList

/-- The name in a script. -/
def SieveActionType.word : SieveActionType → Text
  | .fileinto => "fileinto".toList
  | .redirect => "redirect".toList
  | .reject => "reject".toList
  | .discard => "discard".toList
  | .keep => "keep".toList
  | .stop => "stop".toList
  | .setflag => "setflag".toList
  | .addflag => "addflag".toList
  | .removeflag => "removeflag".toList

end E2Mail.Sieve
