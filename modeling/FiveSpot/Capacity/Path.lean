import FiveSpot.Common

/-!
# Capacity fields

`reconcilers/capacity_path.rs`: validation of the field to scale and of the drain counter's path, the
spec of the owned object built from the template, and the read of an integer by its path.
-/

namespace FiveSpot.Capacity

set_option autoImplicit false

def capacityPathMaxLen : Nat := 253
def capacityPathMaxSegments : Nat := 8
def capacityFieldMaxSegments : Nat := capacityPathMaxSegments - 1
def capacityDrainedPathPrefix : String := "status."
def capacityFieldReservedRoots : List String := ["spec", "metadata", "status"]

inductive CapacityPathError where
  | empty
  | tooLong (len max : Nat)
  | tooManySegments (found max : Nat)
  | invalidSegment (segment : String)
  | wrongPrefix (expected found : String)
  | reservedRootSegment (segment found : String)
  | templateSetsCapacityField (field : String)
  /-- The first argument is where the value that is no object was found. -/
  | notAnObject (place field : String)
  deriving DecidableEq

def CapacityPathError.text : CapacityPathError → String
  | .empty => "capacity path is empty"
  | .tooLong len max =>
      "capacity path is " ++ toString len ++ " characters, the maximum is " ++ toString max
  | .tooManySegments found max =>
      "capacity path has " ++ toString found ++ " segments, the maximum is " ++ toString max
  | .invalidSegment segment =>
      "capacity path segment '" ++ segment ++ "' is not a camelCase field name " ++
        "(must match [a-z][a-zA-Z0-9]*)"
  | .wrongPrefix expected found =>
      "capacity path '" ++ found ++ "' must start with '" ++ expected ++ "'"
  | .reservedRootSegment segment found =>
      "capacity field '" ++ found ++ "' must be relative to the owned object's spec, so it " ++
        "cannot start with the reserved segment '" ++ segment ++ "'"
  | .templateSetsCapacityField field =>
      "spec.template already sets '" ++ field ++ "', which spec.capacity.field owns; remove it " ++
        "from the template so the schedule is the only writer"
  | .notAnObject place field =>
      "spec.template" ++ place ++ " is not an object, so '" ++ field ++ "' cannot be set in it"

def isCamelCaseField (segment : String) : Bool :=
  match segment.toList with
  | [] => false
  | first :: rest => first.isLower && rest.all Char.isAlphanum

def validateSegments (path : String) (maxSegments : Nat) :
    Except CapacityPathError (List String) :=
  if path.isEmpty then .error .empty
  else if capacityPathMaxLen < path.utf8ByteSize then
    .error (.tooLong path.utf8ByteSize capacityPathMaxLen)
  else
    let segments := Text.split '.' path
    if maxSegments < segments.length then .error (.tooManySegments segments.length maxSegments)
    else
      match segments.find? fun segment => !isCamelCaseField segment with
      | some segment => .error (.invalidSegment segment)
      | none => .ok segments

def validateCapacityField (field : String) : Except CapacityPathError (List String) := do
  let segments ← validateSegments field capacityFieldMaxSegments
  let first := segments.headD ""
  if capacityFieldReservedRoots.contains first then throw (.reservedRootSegment first field)
  else return segments

def validatePrefixed (path required : String) : Except CapacityPathError (List String) :=
  if path.isEmpty then .error .empty
  else if !Text.startsWith required path then .error (.wrongPrefix required path)
  else validateSegments path capacityPathMaxSegments

def validateDrainedPath (path : String) : Except CapacityPathError (List String) :=
  validatePrefixed path capacityDrainedPathPrefix

/--
The walk of `inject_capacity_field` below an object with the given members; `walked` are the segments
passed so far. Missing objects on the way are created, and the leaf must not be there yet.
-/
def injectAt (field : String) (value : Int) (walked : List String)
    (members : List (String × Json)) :
    List String → Except CapacityPathError (List (String × Json))
  | [] => .ok members
  | [leaf] =>
      match members.lookup leaf with
      | some _ => .error (.templateSetsCapacityField field)
      | none => .ok (Json.insertMember leaf (.int value) members)
  | segment :: rest =>
      let walked := walked ++ [segment]
      match (members.lookup segment).getD (.obj []) with
      | .obj inner => do
          let inner ← injectAt field value walked inner rest
          return Json.insertMember segment (.obj inner) members
      | _ => .error (.notAnObject ("." ++ ".".intercalate walked) field)

def injectCapacityField (template : Json) (field : String) (value : Int) :
    Except CapacityPathError Json := do
  let segments ← validateCapacityField field
  match template with
  | .obj members => return .obj (← injectAt field value [] members segments)
  | _ => throw (.notAnObject "" field)

def valueAt (segments : List String) (json : Json) : Option Json :=
  segments.foldlM (fun node segment => node.get? segment) json

/-- An unsigned value outside `i64` has no conversion, so `as_u64` finds nothing more. -/
def readI64At (object : Json) (path : String) : Option Int :=
  if path.isEmpty then none
  else (valueAt (Text.split '.' path) object).bind Json.asI64?

@[simp] theorem valueAt_cons (segment : String) (segments : List String) (json : Json) :
    valueAt (segment :: segments) json = (json.get? segment).bind (valueAt segments) := rfl

theorem validateSegments_ok {path : String} {maxSegments : Nat} {segments : List String}
    (h : validateSegments path maxSegments = .ok segments) :
    path.isEmpty = false ∧ segments = Text.split '.' path := by
  unfold validateSegments at h
  split at h
  · cases h
  · rename_i hempty
    split at h
    · cases h
    · dsimp only at h
      split at h
      · cases h
      · split at h <;> cases h
        exact ⟨by simpa using hempty, rfl⟩

theorem validateCapacityField_ok {field : String} {segments : List String}
    (h : validateCapacityField field = .ok segments) :
    field.isEmpty = false ∧ segments = Text.split '.' field := by
  obtain ⟨found, hfound, h⟩ := except_bind_eq_ok.mp h
  dsimp only at h
  split at h <;> cases h
  exact validateSegments_ok hfound

theorem valueAt_injectAt {field : String} {value : Int} {walked segments : List String}
    {members result : List (String × Json)} (hne : segments ≠ [])
    (h : injectAt field value walked members segments = .ok result) :
    valueAt segments (.obj result) = some (.int value) := by
  induction segments generalizing walked members result with
  | nil => exact absurd rfl hne
  | cons segment rest ih =>
    cases rest with
    | nil =>
      unfold injectAt at h
      split at h <;> cases h
      simp [Json.get?, Json.lookup_insertMember, valueAt]
    | cons next rest =>
      unfold injectAt at h
      dsimp only at h
      split at h
      · obtain ⟨inner, hinner, h⟩ := except_bind_eq_ok.mp h
        cases h
        rw [valueAt_cons, Json.get?, Json.lookup_insertMember]
        exact ih (by simp) hinner
      · cases h

theorem readI64At_injectCapacityField {template spec : Json} {field : String} {value : Int}
    (hfits : Json.FitsI64 value) (h : injectCapacityField template field value = .ok spec) :
    readI64At spec field = some value := by
  obtain ⟨segments, hsegments, h⟩ := except_bind_eq_ok.mp h
  obtain ⟨hempty, rfl⟩ := validateCapacityField_ok hsegments
  cases template with
  | obj members =>
    obtain ⟨result, hresult, h⟩ := except_bind_eq_ok.mp h
    cases h
    have hvalue := valueAt_injectAt (Text.split_ne_nil '.' field) hresult
    simp [readI64At, hempty, hvalue, Json.asI64?, if_pos hfits]
  | _ => cases h

end FiveSpot.Capacity
