import Mathlib.Data.List.Infix
import FiveSpot.Data.MergePatch
import FiveSpot.Capacity.Path

/-!
# The spec built from a template

`inject_capacity_field` adds one integer to a copy of the template, and the objects on the way to it
that are missing. When it succeeds, what it leaves alone, and how to take it back.
-/

namespace FiveSpot.Capacity

set_option autoImplicit false

/-- `after` is `before` with something new at the path; objects on the way there may be new too. -/
structure DiffersOnlyAt (segments : List String) (before after : Json) : Prop where
  elsewhere : ∀ path, ¬ path <+: segments → ¬ segments <+: path →
    valueAt path after = valueAt path before
  above : ∀ path, path <+: segments → path ≠ segments →
    (∃ members, valueAt path after = some (.obj members)) ∧
      ∀ json, valueAt path before = some json → ∃ members, json = .obj members
  absent : valueAt segments before = none

def IsObject (json : Json) : Prop := ∃ members, json = .obj members

/-- `json` without the member at the path. -/
def removeAt : List String → Json → Json
  | [leaf], .obj members => .obj (Json.removeMember leaf members)
  | segment :: rest, .obj members =>
      match members.lookup segment with
      | some inner => .obj (Json.insertMember segment (removeAt rest inner) members)
      | none => .obj members
  | _, json => json

/-- The places on the way to a path, and the path itself, that the template has nothing at; the
longest first. -/
def createdPaths (template : Json) (segments : List String) : List (List String) :=
  segments.inits.reverse.filter fun path => (valueAt path template).isNone

/-- Takes back the injected leaf and the objects created for it. -/
def withdraw (template : Json) (segments : List String) (spec : Json) : Json :=
  (createdPaths template segments).foldl (fun json path => removeAt path json) spec

variable {field : String} {value : Int} {walked : List String} {segments : List String}
  {members result : List (String × Json)}

theorem valueAt_empty {path : List String} (hne : path ≠ []) : valueAt path (.obj []) = none := by
  cases path with
  | nil => exact absurd rfl hne
  | cons segment rest => rfl

theorem valueAt_insertMember_ne {segment other : String} (hne : other ≠ segment) (inner : Json)
    (path : List String) :
    valueAt (other :: path) (.obj (Json.insertMember segment inner members)) =
      valueAt (other :: path) (.obj members) := by
  rw [valueAt_cons, valueAt_cons, Json.get?, Json.get?, Json.lookup_insertMember_ne hne]

theorem valueAt_insertMember {segment : String} (inner : Json) (path : List String) :
    valueAt (segment :: path) (.obj (Json.insertMember segment inner members)) =
      valueAt path inner := by
  rw [valueAt_cons, Json.get?, Json.lookup_insertMember]
  rfl

theorem valueAt_member {segment : String} {inner : List (String × Json)} {path : List String}
    (hinner : (members.lookup segment).getD (.obj []) = .obj inner) (hne : path ≠ []) :
    valueAt (segment :: path) (.obj members) = valueAt path (.obj inner) := by
  rw [valueAt_cons, Json.get?]
  cases hlookup : members.lookup segment with
  | none =>
    rw [hlookup] at hinner
    cases hinner
    exact (valueAt_empty hne).symm
  | some json =>
    rw [hlookup] at hinner
    cases hinner
    rfl

theorem differsOnlyAt_leaf {leaf : String} (hnone : members.lookup leaf = none) :
    DiffersOnlyAt [leaf] (.obj members) (.obj (Json.insertMember leaf (.int value) members)) where
  elsewhere path hnot hbeyond := by
    cases path with
    | nil => exact absurd List.nil_prefix hnot
    | cons segment rest =>
      refine valueAt_insertMember_ne (fun heq => hbeyond ?_) _ rest
      subst heq
      exact ⟨rest, rfl⟩
  above path hprefix hne := by
    cases path with
    | nil => exact ⟨⟨_, rfl⟩, fun json hjson => ⟨members, (Option.some.inj hjson).symm⟩⟩
    | cons segment rest =>
      obtain ⟨rfl, hrest⟩ := List.cons_prefix_cons.mp hprefix
      exact absurd (by rw [List.prefix_nil.mp hrest]) hne
  absent := by
    rw [valueAt_cons, Json.get?, hnone]
    rfl

theorem DiffersOnlyAt.member {segment : String} {inner inner' : List (String × Json)}
    (hne : segments ≠ []) (hinner : (members.lookup segment).getD (.obj []) = .obj inner)
    (hd : DiffersOnlyAt segments (.obj inner) (.obj inner')) :
    DiffersOnlyAt (segment :: segments) (.obj members)
      (.obj (Json.insertMember segment (.obj inner') members)) where
  elsewhere path hnot hbeyond := by
    cases path with
    | nil => exact absurd List.nil_prefix hnot
    | cons other rest =>
      by_cases heq : other = segment
      · subst heq
        have hrest : rest ≠ [] := by
          rintro rfl
          exact hnot ⟨segments, rfl⟩
        rw [valueAt_insertMember, valueAt_member hinner hrest]
        refine hd.elsewhere rest (fun h => hnot ?_) fun h => hbeyond ?_
        · exact List.cons_prefix_cons.mpr ⟨rfl, h⟩
        · exact List.cons_prefix_cons.mpr ⟨rfl, h⟩
      · exact valueAt_insertMember_ne heq _ rest
  above path hprefix hshort := by
    cases path with
    | nil => exact ⟨⟨_, rfl⟩, fun json hjson => ⟨members, (Option.some.inj hjson).symm⟩⟩
    | cons other rest =>
      obtain ⟨rfl, hrest⟩ := List.cons_prefix_cons.mp hprefix
      obtain ⟨hafter, hbefore⟩ := hd.above rest hrest fun h => hshort (by rw [h])
      refine ⟨by rwa [valueAt_insertMember], fun json hjson => ?_⟩
      by_cases hnil : rest = []
      · subst hnil
        -- the member itself: it is the object that the walk went into
        rw [valueAt_cons, Json.get?] at hjson
        cases hlookup : members.lookup other with
        | none => simp [hlookup] at hjson
        | some found =>
          rw [hlookup] at hinner hjson
          cases hinner
          exact ⟨inner, (Option.some.inj hjson).symm⟩
      · rw [valueAt_member hinner hnil] at hjson
        exact hbefore json hjson
  absent := by
    rw [valueAt_member hinner hne]
    exact hd.absent

theorem differsOnlyAt_injectAt (hne : segments ≠ [])
    (h : injectAt field value walked members segments = .ok result) :
    DiffersOnlyAt segments (.obj members) (.obj result) := by
  induction segments generalizing walked members result with
  | nil => exact absurd rfl hne
  | cons segment rest ih =>
    cases rest with
    | nil =>
      unfold injectAt at h
      split at h <;> cases h
      exact differsOnlyAt_leaf (by assumption)
    | cons next rest =>
      unfold injectAt at h
      dsimp only at h
      split at h
      · rename_i inner hinner
        obtain ⟨inner', hinner', h⟩ := except_bind_eq_ok.mp h
        cases h
        exact (ih (by simp) hinner').member (by simp) hinner
      · cases h

theorem differsOnlyAt_injectCapacityField {template spec : Json}
    (h : injectCapacityField template field value = .ok spec) :
    DiffersOnlyAt (Text.split '.' field) template spec := by
  obtain ⟨segments, hsegments, h⟩ := except_bind_eq_ok.mp h
  obtain ⟨_, rfl⟩ := validateCapacityField_ok hsegments
  cases template with
  | obj members =>
    obtain ⟨result, hresult, h⟩ := except_bind_eq_ok.mp h
    cases h
    exact differsOnlyAt_injectAt (Text.split_ne_nil '.' field) hresult
  | _ => cases h

/-- There is room for the leaf: whatever is on the way is an object, and the leaf is absent. -/
structure HasRoom (segments : List String) (template : Json) : Prop where
  onTheWay : ∀ path inner, path <+: segments → path ≠ [] → path ≠ segments →
    valueAt path template = some inner → IsObject inner
  absent : valueAt segments template = none

theorem hasRoom_of_differsOnlyAt {template spec : Json} (h : DiffersOnlyAt segments template spec) :
    HasRoom segments template where
  onTheWay path inner hprefix _ hshort hinner := (h.above path hprefix hshort).2 inner hinner
  absent := h.absent

theorem HasRoom.member {segment : String} (h : HasRoom (segment :: segments) (.obj members))
    (hne : segments ≠ []) :
    ∃ inner, (members.lookup segment).getD (.obj []) = .obj inner ∧ HasRoom segments (.obj inner) := by
  obtain ⟨inner, hinner⟩ : ∃ inner, (members.lookup segment).getD (.obj []) = .obj inner := by
    cases hlookup : members.lookup segment with
    | none => exact ⟨[], rfl⟩
    | some json =>
      have hvalue : valueAt [segment] (.obj members) = some json := by
        rw [valueAt_cons, Json.get?, hlookup]
        rfl
      obtain ⟨inner, rfl⟩ := h.onTheWay [segment] json (List.cons_prefix_cons.mpr ⟨rfl, List.nil_prefix⟩)
        (by simp) (by simpa using hne.symm) hvalue
      exact ⟨inner, rfl⟩
  refine ⟨inner, hinner, ⟨fun path json hprefix hpath hshort hjson => ?_, ?_⟩⟩
  · rw [← valueAt_member hinner hpath] at hjson
    exact h.onTheWay (segment :: path) json (List.cons_prefix_cons.mpr ⟨rfl, hprefix⟩) (by simp)
      (fun heq => hshort (List.cons.inj heq).2) hjson
  · rw [← valueAt_member hinner hne]
    exact h.absent

theorem injectAt_of_hasRoom (hne : segments ≠ []) (h : HasRoom segments (.obj members)) :
    ∃ result, injectAt field value walked members segments = .ok result := by
  induction segments generalizing walked members with
  | nil => exact absurd rfl hne
  | cons segment rest ih =>
    cases rest with
    | nil =>
      have habsent : members.lookup segment = none := by
        have hvalue := h.absent
        rw [valueAt_cons, Json.get?] at hvalue
        cases hlookup : members.lookup segment with
        | none => rfl
        | some json => simp [hlookup, valueAt] at hvalue
      exact ⟨_, by rw [injectAt, habsent]⟩
    | cons next rest =>
      obtain ⟨inner, hinner, hroom⟩ := h.member (by simp)
      obtain ⟨result, hresult⟩ : ∃ result,
          injectAt field value (walked ++ [segment]) inner (next :: rest) = .ok result :=
        ih (by simp) hroom
      refine ⟨Json.insertMember segment (.obj result) members, ?_⟩
      unfold injectAt
      dsimp only
      rw [hinner]
      dsimp only
      rw [hresult]
      rfl

theorem injectCapacityField_eq_ok_iff {template spec : Json} :
    injectCapacityField template field value = .ok spec ↔
      (∃ found, validateCapacityField field = .ok found) ∧
        ∃ members result, template = .obj members ∧ spec = .obj result ∧
          injectAt field value [] members (Text.split '.' field) = .ok result := by
  unfold injectCapacityField
  rw [except_bind_eq_ok]
  constructor
  · rintro ⟨found, hfound, h⟩
    obtain ⟨_, rfl⟩ := validateCapacityField_ok hfound
    cases template with
    | obj members =>
      obtain ⟨result, hresult, h⟩ := except_bind_eq_ok.mp h
      cases h
      exact ⟨⟨_, hfound⟩, members, result, rfl, rfl, hresult⟩
    | _ => cases h
  · rintro ⟨⟨found, hfound⟩, members, result, rfl, rfl, hresult⟩
    refine ⟨found, hfound, ?_⟩
    obtain ⟨_, rfl⟩ := validateCapacityField_ok hfound
    dsimp only
    rw [hresult]
    rfl

theorem injectCapacityField_succeeds_iff {template : Json} :
    (∃ spec, injectCapacityField template field value = .ok spec) ↔
      (∃ found, validateCapacityField field = .ok found) ∧ IsObject template ∧
        HasRoom (Text.split '.' field) template := by
  constructor
  · rintro ⟨spec, h⟩
    obtain ⟨hvalid, members, result, rfl, -, -⟩ := injectCapacityField_eq_ok_iff.mp h
    exact ⟨hvalid, ⟨members, rfl⟩, hasRoom_of_differsOnlyAt (differsOnlyAt_injectCapacityField h)⟩
  · rintro ⟨hvalid, ⟨members, rfl⟩, hroom⟩
    obtain ⟨result, hresult⟩ := injectAt_of_hasRoom (Text.split_ne_nil '.' field) hroom
    exact ⟨_, injectCapacityField_eq_ok_iff.mpr ⟨hvalid, members, result, rfl, rfl, hresult⟩⟩

section Reading

variable {template spec : Json}

theorem valueAt_append (path path' : List String) (json : Json) :
    valueAt (path ++ path') json = (valueAt path json).bind (valueAt path') := by
  unfold valueAt
  rw [List.foldlM_append]
  rfl

theorem valueAt_injectCapacityField (h : injectCapacityField template field value = .ok spec) :
    valueAt (Text.split '.' field) spec = some (.int value) := by
  obtain ⟨-, members, result, rfl, rfl, hresult⟩ := injectCapacityField_eq_ok_iff.mp h
  exact valueAt_injectAt (Text.split_ne_nil '.' field) hresult

theorem valueAt_of_not_onTheWay (h : injectCapacityField template field value = .ok spec)
    {path : List String} (hpath : ¬ path <+: Text.split '.' field) :
    valueAt path spec = valueAt path template := by
  have hdiffers := differsOnlyAt_injectCapacityField h
  by_cases hbeyond : Text.split '.' field <+: path
  · obtain ⟨rest, rfl⟩ := hbeyond
    have hrest : rest ≠ [] := by
      rintro rfl
      exact hpath (by simp)
    rw [valueAt_append, valueAt_append, valueAt_injectCapacityField h, hdiffers.absent]
    cases rest with
    | nil => exact absurd rfl hrest
    | cons segment rest => rfl
  · exact hdiffers.elsewhere path hpath hbeyond

theorem asI64_of_isObject {json : Json} (h : IsObject json) : json.asI64? = none := by
  obtain ⟨members, rfl⟩ := h
  rfl

/-- Every other path reads as it did: on the way to the leaf there are objects and no integers. -/
theorem readI64At_of_ne (h : injectCapacityField template field value = .ok spec) {path : String}
    (hne : path ≠ field) : readI64At spec path = readI64At template path := by
  have hdiffers := differsOnlyAt_injectCapacityField h
  unfold readI64At
  split
  · rfl
  by_cases hway : Text.split '.' path <+: Text.split '.' field
  · obtain ⟨⟨members, hafter⟩, hbefore⟩ :=
      hdiffers.above _ hway fun heq => hne (Text.split_injective '.' heq)
    rw [hafter]
    cases hvalue : valueAt (Text.split '.' path) template with
    | none => rfl
    | some json => exact (asI64_of_isObject (hbefore json hvalue)).symm
  · rw [valueAt_of_not_onTheWay h hway]

end Reading

section Withdrawing

theorem createdPaths_cons (segment : String) (json : Json) :
    createdPaths json (segment :: segments) =
      (segments.inits.reverse.filter fun path => (valueAt (segment :: path) json).isNone).map
        (segment :: ·) := by
  have hroot : (valueAt [] json).isNone = false := rfl
  rw [createdPaths, List.inits_cons, List.reverse_cons, List.filter_append, List.filter_cons_of_neg
    (by simp [hroot]), List.filter_nil, List.append_nil, ← List.map_reverse, List.filter_map]
  rfl

theorem ne_nil_of_mem_createdPaths {json : Json} {path : List String}
    (h : path ∈ createdPaths json segments) : path ≠ [] := by
  rintro rfl
  simp [createdPaths, valueAt] at h

theorem removeAt_member {segment : String} {path : List String} (hne : path ≠ []) (inner : Json) :
    removeAt (segment :: path) (.obj (Json.insertMember segment inner members)) =
      .obj (Json.insertMember segment (removeAt path inner) members) := by
  cases path with
  | nil => exact absurd rfl hne
  | cons next rest =>
    rw [removeAt, Json.lookup_insertMember]
    · simp only [Json.insertMember_insertMember]
    · simp

theorem foldl_removeAt_member {segment : String} {paths : List (List String)}
    (hne : ∀ path ∈ paths, path ≠ []) (inner : Json) :
    (paths.map (segment :: ·)).foldl (fun json path => removeAt path json)
        (.obj (Json.insertMember segment inner members)) =
      .obj (Json.insertMember segment (paths.foldl (fun json path => removeAt path json) inner)
        members) := by
  induction paths generalizing inner with
  | nil => rfl
  | cons path paths ih =>
    rw [List.map_cons, List.foldl_cons, List.foldl_cons, removeAt_member (hne path List.mem_cons_self)]
    exact ih (fun p hp => hne p (List.mem_cons_of_mem _ hp)) _

theorem removeAt_leaf {leaf : String} (habsent : members.lookup leaf = none) (json : Json) :
    removeAt [leaf] (.obj (Json.insertMember leaf json members)) = .obj members := by
  rw [removeAt, Json.removeMember_insertMember, Json.removeMember_of_absent habsent]

theorem withdraw_of_absent {segment : String} (habsent : members.lookup segment = none)
    (inner : Json) :
    withdraw (.obj members) (segment :: segments) (.obj (Json.insertMember segment inner members)) =
      .obj members := by
  have hall : (segments.inits.reverse.filter fun path =>
      (valueAt (segment :: path) (.obj members)).isNone) = segments.inits.reverse := by
    refine List.filter_eq_self.mpr fun path _ => ?_
    rw [valueAt_cons, Json.get?, habsent]
    rfl
  have hsplit : segments.inits.reverse = segments.inits.tail.reverse ++ [[]] := by
    cases segments with
    | nil => rfl
    | cons next rest => simp
  rw [withdraw, createdPaths_cons, hall, hsplit, List.map_append, List.foldl_append,
    foldl_removeAt_member]
  · exact removeAt_leaf habsent _
  · intro path hpath hnil
    subst hnil
    cases segments with
    | nil => simp at hpath
    | cons next rest => simp at hpath

theorem withdraw_of_present {segment : String} {inner : List (String × Json)}
    (hpresent : members.lookup segment = some (.obj inner)) (inner' : Json) :
    withdraw (.obj members) (segment :: segments) (.obj (Json.insertMember segment inner' members)) =
      .obj (Json.insertMember segment (withdraw (.obj inner) segments inner') members) := by
  have hfilter : (segments.inits.reverse.filter fun path =>
      (valueAt (segment :: path) (.obj members)).isNone) = createdPaths (.obj inner) segments := by
    refine List.filter_congr fun path _ => ?_
    rw [valueAt_cons, Json.get?, hpresent]
    rfl
  rw [withdraw, createdPaths_cons, hfilter, foldl_removeAt_member]
  · rfl
  · exact fun path hpath => ne_nil_of_mem_createdPaths hpath

theorem withdraw_injectAt (hne : segments ≠ [])
    (h : injectAt field value walked members segments = .ok result) :
    withdraw (.obj members) segments (.obj result) = .obj members := by
  induction segments generalizing walked members result with
  | nil => exact absurd rfl hne
  | cons segment rest ih =>
    cases rest with
    | nil =>
      unfold injectAt at h
      split at h <;> cases h
      exact withdraw_of_absent (by assumption) _
    | cons next rest =>
      unfold injectAt at h
      dsimp only at h
      split at h
      · rename_i inner hinner
        obtain ⟨inner', hinner', h⟩ := except_bind_eq_ok.mp h
        cases h
        cases hlookup : members.lookup segment with
        | none => exact withdraw_of_absent hlookup _
        | some json =>
          rw [hlookup] at hinner
          cases hinner
          rw [withdraw_of_present hlookup, ih (by simp) hinner', Json.insertMember_of_present hlookup]
      · cases h

end Withdrawing

/-- Capacity injection is exact: it succeeds where there is room, it sets the field, every other path
reads as in the template, and taking back what it added leaves the template. -/
theorem injectCapacityField_exact (template : Json) (field : String) (value : Int)
    (hfits : Json.FitsI64 value) :
    ((∃ spec, injectCapacityField template field value = .ok spec) ↔
      (∃ segments, validateCapacityField field = .ok segments) ∧ IsObject template ∧
        (∀ path inner, path <+: Text.split '.' field → path ≠ [] → path ≠ Text.split '.' field →
          valueAt path template = some inner → IsObject inner) ∧
        valueAt (Text.split '.' field) template = none) ∧
    ∀ spec, injectCapacityField template field value = .ok spec →
      readI64At spec field = some value ∧
        (∀ path, path ≠ field → readI64At spec path = readI64At template path) ∧
        (∀ path, ¬ path <+: Text.split '.' field → valueAt path spec = valueAt path template) ∧
        withdraw template (Text.split '.' field) spec = template := by
  refine ⟨?_, fun spec h => ⟨readI64At_injectCapacityField hfits h, fun path => readI64At_of_ne h,
    fun path => valueAt_of_not_onTheWay h, ?_⟩⟩
  · rw [injectCapacityField_succeeds_iff]
    constructor
    · rintro ⟨hvalid, hobject, hroom⟩
      exact ⟨hvalid, hobject, hroom.onTheWay, hroom.absent⟩
    · rintro ⟨hvalid, hobject, hway, habsent⟩
      exact ⟨hvalid, hobject, ⟨hway, habsent⟩⟩
  · obtain ⟨-, members, result, rfl, rfl, hresult⟩ := injectCapacityField_eq_ok_iff.mp h
    exact withdraw_injectAt (Text.split_ne_nil '.' field) hresult

theorem injectCapacityField_exact_nested :
    readI64At (.obj [("maxReplicas", .int 20), ("pool", .obj [("warm", .int 10)])]) "pool.warm" =
        some 10 ∧
      withdraw (.obj [("maxReplicas", .int 20)]) (Text.split '.' "pool.warm")
          (.obj [("maxReplicas", .int 20), ("pool", .obj [("warm", .int 10)])]) =
        .obj [("maxReplicas", .int 20)] :=
  have hspec := (injectCapacityField_exact (.obj [("maxReplicas", .int 20)]) "pool.warm" 10
    (by decide)).2 _ rfl
  ⟨hspec.1, hspec.2.2.2⟩

end FiveSpot.Capacity
