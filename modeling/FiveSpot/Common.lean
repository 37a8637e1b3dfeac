import FiveSpot.Data.Json
import FiveSpot.Data.Text

/-!
# What both reconcilers share

How API calls are answered, errors, durations and time stamps, status conditions, events and the
decision when to look at a resource again.
-/

namespace FiveSpot

set_option autoImplicit false

theorem except_bind_eq_ok {ε α β : Type} {x : Except ε α} {f : α → Except ε β} {b : β} :
    (x >>= f) = .ok b ↔ ∃ a, x = .ok a ∧ f a = .ok b := by
  cases x with
  | error e => simp [bind, Except.bind]
  | ok a => simp [bind, Except.bind]

/-- `kube::Error`: an answer of the API server with a status code, or a failure to get one. -/
inductive KubeError where
  | api (code : Nat) (text : String)
  | other (text : String)
  deriving DecidableEq

def KubeError.text : KubeError → String
  | .api _ text => text
  | .other text => text

def httpAlreadyExists : Nat := 409
def httpNotFound : Nat := 404
def httpTooManyRequests : Nat := 429

def KubeError.isNotFound : KubeError → Bool
  | .api code _ => code == httpNotFound
  | .other _ => false

def KubeError.isAlreadyExists : KubeError → Bool
  | .api code _ => code == httpAlreadyExists
  | .other _ => false

def KubeError.isTooManyRequests : KubeError → Bool
  | .api code _ => code == httpTooManyRequests
  | .other _ => false

/-- How an API call goes: answered, or failed with or without having taken effect. -/
inductive Answer where
  | ok
  | fail (e : KubeError) (applied : Bool)
  deriving DecidableEq

def Answer.applied : Answer → Bool
  | .ok => true
  | .fail _ applied => applied

def notFound {α : Type} : Except KubeError α := .error (.api httpNotFound "not found")

def readAnswer {α : Type} (c : Answer) (r : Except KubeError α) : Except KubeError α :=
  match c with
  | .ok => r
  | .fail e _ => .error e

/-- A write to `w` that the server accepts as `after` or refuses. -/
def writeAnswer {World : Type} (w : World) (c : Answer) (after : Except KubeError World) :
    Except KubeError Unit × World :=
  match c, after with
  | .ok, .ok w' => (.ok (), w')
  | .ok, .error e => (.error e, w)
  | .fail e true, .ok w' => (.error e, w')
  | .fail e _, _ => (.error e, w)

theorem readAnswer_eq_ok {α : Type} {c : Answer} {x : Except KubeError α} {a : α}
    (h : readAnswer c x = .ok a) : x = .ok a := by
  cases c with
  | ok => exact h
  | fail => cases h

theorem writeAnswer_ok_snd {World : Type} (w w' : World) (c : Answer) :
    (writeAnswer w c (.ok w')).2 = if c.applied then w' else w := by
  rcases c with _ | ⟨e, _ | _⟩ <;> rfl

theorem writeAnswer_fst_eq_ok {World : Type} {w : World} {c : Answer}
    {after : Except KubeError World} (h : (writeAnswer w c after).1 = .ok ()) :
    c = .ok ∧ ∃ w', after = .ok w' := by
  rcases c with _ | ⟨e, _ | _⟩ <;> cases after
  case ok.ok w' => exact ⟨rfl, w', rfl⟩
  all_goals cases h

inductive ReconcilerError where
  | kubeError (e : KubeError)
  | notFound (text : String)
  | invalidConfig (text : String)
  | scheduleError (text : String)
  | capiError (text : String)
  | fileResolutionError (text : String)
  | referenceValidationError (text : String)
  | validationError (text : String)
  | permissionDenied (text : String)
  | timeoutError (text : String)
  | kubeconfigSecretMissingKey (ns name key : String)
  | kubeconfigInvalid (ns name reason : String)
  | childClusterUnreachable (ns name reason : String)
  | other (text : String)
  deriving DecidableEq

def ReconcilerError.text : ReconcilerError → String
  | .kubeError e => "Kubernetes API error: " ++ e.text
  | .notFound t => "Resource not found: " ++ t
  | .invalidConfig t => "Invalid configuration: " ++ t
  | .scheduleError t => "Schedule evaluation error: " ++ t
  | .capiError t => "CAPI operation failed: " ++ t
  | .fileResolutionError t => "File content resolution failed: " ++ t
  | .referenceValidationError t => "Reference validation failed: " ++ t
  | .validationError t => "Security validation failed: " ++ t
  | .permissionDenied t => "Permission denied: " ++ t
  | .timeoutError t => "Operation timed out: " ++ t
  | .kubeconfigSecretMissingKey ns name key =>
      "Kubeconfig Secret " ++ ns ++ "/" ++ name ++ " is missing data key " ++ key
  | .kubeconfigInvalid ns name reason =>
      "Kubeconfig in Secret " ++ ns ++ "/" ++ name ++ " is invalid: " ++ reason
  | .childClusterUnreachable ns name reason =>
      "Child cluster " ++ ns ++ "/" ++ name ++ " unreachable: " ++ reason
  | .other t => t

def maxDurationSecs : Nat := 86400

def durationUnit (unit : Char) : Option Nat :=
  if unit = 's' then some 1
  else if unit = 'm' then some 60
  else if unit = 'h' then some 3600
  else none

def parseDuration (text : String) : Except ReconcilerError Nat := do
  let text := Text.trim text
  match text.toList.getLast? with
  | none => throw (.invalidConfig "Empty duration string")
  | some unit =>
      if !Text.isAscii text then
        throw (.invalidConfig ("Invalid duration (non-ASCII): " ++ Text.debug text))
      else
        match Text.parseU64 (.ofList text.toList.dropLast) with
        | none => throw (.invalidConfig ("Invalid duration value: " ++ text))
        | some value =>
            match durationUnit unit with
            | none =>
                throw (.invalidConfig
                  ("Invalid duration unit: '" ++ .singleton unit ++ "'. Use 's', 'm', or 'h'"))
            | some multiplier =>
                let seconds := value * multiplier
                if UInt64.size ≤ seconds then
                  throw (.invalidConfig
                    ("Duration overflow: '" ++ text ++ "' exceeds representable range"))
                else if maxDurationSecs < seconds then
                  throw (.invalidConfig ("Duration " ++ toString seconds ++
                    "s exceeds maximum of " ++ toString maxDurationSecs ++ "s (24h)"))
                else return seconds

example : parseDuration " 5m" = .ok 300 := by decide

/-- Nanoseconds since the epoch. -/
abbrev Instant := Int

def nanosPerSecond : Int := 1000000000

/-- A duration in nanoseconds as whole seconds, rounded towards zero. -/
def numSeconds (nanos : Int) : Int := nanos.tdiv nanosPerSecond

/-- A stored RFC 3339 text: one the controller wrote, or any other with what its parse gives. -/
inductive Timestamp where
  | at (t : Instant)
  | text (raw : String) (parsed : Except String Instant)
  deriving DecidableEq

def Timestamp.parse : Timestamp → Except String Instant
  | .at t => .ok t
  | .text _ parsed => parsed

structure Condition where
  type : String
  status : String
  lastTransitionTime : Timestamp
  reason : String
  message : String
  deriving DecidableEq

/-- `Condition::new`; `now` is the clock reading taken there. -/
def Condition.new (now : Instant) (type status reason message : String) : Condition :=
  ⟨type, status, .at now, reason, message⟩

def conditionTypeReady : String := "Ready"
def conditionStatusTrue : String := "True"
def conditionStatusFalse : String := "False"

/-- `kube::runtime::controller::Action`. -/
inductive Action where
  | requeue (seconds : Nat)
  | awaitChange
  deriving DecidableEq

structure KubeEvent where
  warning : Bool
  reason : String
  note : Option String
  action : String
  deriving DecidableEq

end FiveSpot
