import Pgokf.Documents.Attribution
import Pgokf.Sync.Iso8601

/-! # Human verifications, as the workflow and as the catalog read them

`has_human_verification` of `documents.rs`, and the trust tier of `catalog/provenance.rs`. -/

namespace Pgokf.Documents

open Pgokf.Lib Pgokf.Sync Document

variable {F : Type}

def Document.hasHumanVerification (d : Document F) : Bool :=
  ((d.get (field "verified")).bind Yaml.asSequence).any fun events =>
    events.any fun e => ((e.get (field "by")).bind Yaml.asStr).any human.isPrefixOf

namespace Yaml

def jsonArray : Yaml F → Option (List (Yaml F))
  | .sequence items => some items
  | _ => none

def isJsonObject : Yaml F → Bool
  | .mapping _ => true
  | _ => false

/-- `json_str`. -/
def jsonText (v : Yaml F) (key : Key) : Option Text := (v.jsonGet key).bind jsonStr

end Yaml

structure VerificationEvent where
  ordinal : Nat
  verifiedBy : Text
  verifiedAt : Option Epoch

def verifiedAt (item : Yaml F) : Guarded (Option Epoch) :=
  match item.jsonText (field "at") with
  | some text => (parseIso8601Epoch text).attempt
  | none => pure none

/-- An entry without an actor is passed over. -/
def consider (index : Nat) (item : Yaml F) : Guarded (Option VerificationEvent) :=
  match (item.jsonText (field "by")).bind nonEmpty with
  | none => pure none
  | some verifiedBy => do
    let verifiedAt ← verifiedAt item
    pure (some ⟨min index 2147483647, verifiedBy, verifiedAt⟩)

def considerAll : Nat → List (Yaml F) → Guarded (List VerificationEvent)
  | _, [] => pure []
  | index, item :: items => do
    let event ← consider index item
    let events ← considerAll (index + 1) items
    pure (event.toList ++ events)

def extractVerificationEvents (d : Document F) : Guarded (List VerificationEvent) := do
  Guarded.demand d.parses
  match d.get (field "verified") with
  | none => pure []
  | some value =>
    match value.jsonArray with
    | some items => considerAll 0 items
    | none => if value.isJsonObject then considerAll 0 [value] else pure []

def trustTier (events : List VerificationEvent) : Text :=
  if events.any fun event => human.isPrefixOf event.verifiedBy then "human-reviewed"
  else if events.isEmpty then "unverified"
  else "machine-confirmed"

variable {events : List VerificationEvent}

theorem trustTier_eq_humanReviewed :
    trustTier events = "human-reviewed" ↔ ∃ event ∈ events, human <+: event.verifiedBy := by
  have hany : (events.any fun event => human.isPrefixOf event.verifiedBy) = true ↔
      ∃ event ∈ events, human <+: event.verifiedBy := by
    simp only [List.any_eq_true, List.isPrefixOf_iff_prefix]
  rw [← hany, trustTier]
  split
  next h => exact iff_of_true rfl h
  next h =>
    refine iff_of_false ?_ h
    split <;> decide

namespace Yaml

/-- The workflow looks for the prefix at the start of the actor as written. -/
def verifiedByPerson (e : Yaml F) : Bool := ((e.get (field "by")).bind asStr).any human.isPrefixOf

/-- The catalog looks for it at the start of the trimmed actor. -/
def recordedPerson (e : Yaml F) : Bool := (e.jsonText (field "by")).any fun t =>
    human.isPrefixOf (trim t)

end Yaml

variable {d : Document F}

theorem Document.hasHumanVerification_iff :
    d.hasHumanVerification = true ↔
      ∃ v, d.get (field "verified") = some v ∧
        ∃ items, v.asSequence = some items ∧ ∃ e ∈ items, e.verifiedByPerson = true := by
  rw [hasHumanVerification, Option.any_eq_true]
  simp only [Option.bind_eq_some_iff, List.any_eq_true]
  constructor
  · rintro ⟨items, ⟨v, hv, hitems⟩, e, he, hperson⟩
    exact ⟨v, hv, items, hitems, e, he, hperson⟩
  · rintro ⟨v, hv, items, hitems, e, he, hperson⟩
    exact ⟨items, ⟨v, hv, hitems⟩, e, he, hperson⟩

variable {index : Nat}

theorem consider_person {item : Yaml F} {event : Option VerificationEvent}
    (h : consider index item = .value event) :
    (∃ e ∈ event, human <+: e.verifiedBy) ↔ item.recordedPerson = true := by
  rw [consider] at h
  rw [Yaml.recordedPerson]
  cases hby : item.jsonText (field "by") with
  | none =>
    simp only [hby, Option.bind_none, Guarded.pure_eq_value] at h
    subst h
    simp
  | some t =>
    simp only [Option.any_some, List.isPrefixOf_iff_prefix]
    simp only [hby, Option.bind_some] at h
    cases hp : nonEmpty t with
    | none =>
      simp only [hp, Guarded.pure_eq_value] at h
      subst h
      have hnot := (not_human_nonEmpty (t := t)).mp (by simp [hp])
      simpa [List.isPrefixOf_iff_prefix] using Bool.eq_false_iff.mp hnot
    | some p =>
      simp only [hp, Guarded.bind_eq_value, Guarded.pure_eq_value] at h
      obtain ⟨verifiedAt, -, rfl⟩ := h
      simp [(nonEmpty_eq_some.mp hp).1]

theorem considerAll_person {items : List (Yaml F)} (h : considerAll index items = .value events) :
    (∃ e ∈ events, human <+: e.verifiedBy) ↔ ∃ item ∈ items, item.recordedPerson = true := by
  induction items generalizing index events with
  | nil =>
    simp only [considerAll, Guarded.pure_eq_value] at h
    subst h
    simp
  | cons item items ih =>
    simp only [considerAll, Guarded.bind_eq_value, Guarded.pure_eq_value] at h
    obtain ⟨event, hevent, rest, hrest, rfl⟩ := h
    simp only [List.mem_append, or_and_right, exists_or, List.exists_mem_cons_iff, ih hrest,
      Option.mem_toList]
    rw [← consider_person hevent]
    simp only [Option.mem_def]

theorem trustTier_extract (h : extractVerificationEvents d = .value events) :
    trustTier events = "human-reviewed" ↔
      ∃ v, d.get (field "verified") = some v ∧
        ((∃ items, v = .sequence items ∧ ∃ e ∈ items, e.recordedPerson = true) ∨
          (∃ fields, v = .mapping fields ∧ v.recordedPerson = true)) := by
  rw [trustTier_eq_humanReviewed]
  obtain ⟨-, -, h⟩ := Guarded.bind_eq_value.mp h
  cases hv : d.get (field "verified") with
  | none =>
    simp only [hv, Guarded.pure_eq_value] at h
    subst h
    simp
  | some v =>
    simp only [hv] at h
    cases v with
    | sequence items | mapping fields =>
      rw [considerAll_person h]
      simp
    | _ =>
      simp only [Yaml.jsonArray, Yaml.isJsonObject, Bool.false_eq_true, if_false,
        Guarded.pure_eq_value] at h
      subst h
      simp

namespace Yaml

/- An entry that names a person for both readers, and one that does so behind white space. -/

def plainPerson (e : Yaml F) : Bool := (e.jsonText (field "by")).any human.isPrefixOf

def indentedPerson (e : Yaml F) : Bool :=
  (e.jsonText (field "by")).any fun t => !human.isPrefixOf t && human.isPrefixOf (trim t)

end Yaml

theorem human_eq : human = ['h', 'u', 'm', 'a', 'n', ':'] := rfl

theorem trim_human (rest : Text) : human <+: trim (human ++ rest) := by
  have hstart : (human ++ rest).dropWhile isWhitespace = human ++ rest := by
    rw [human_eq]
    rfl
  rw [trim, hstart, List.reverse_append, List.dropWhile_append]
  split
  · rw [human_eq]
    exact ⟨[], rfl⟩
  · rw [List.reverse_append, List.reverse_reverse]
    exact List.prefix_append ..

theorem trim_prefix_human {t : Text} (h : human <+: t) : human <+: trim t := by
  obtain ⟨rest, rfl⟩ := h
  exact trim_human rest

namespace Yaml

theorem recordedPerson_eq (e : Yaml F) : e.recordedPerson = (e.plainPerson || e.indentedPerson) := by
  rw [recordedPerson, plainPerson, indentedPerson]
  cases e.jsonText (field "by") with
  | none => rfl
  | some t =>
    simp only [Option.any_some]
    cases hplain : human.isPrefixOf t with
    | true =>
      simpa [List.isPrefixOf_iff_prefix] using trim_prefix_human (List.isPrefixOf_iff_prefix.mp hplain)
    | false => simp

theorem asStr_of_untagged {v : Yaml F} (h : v.untagged = true) : v.asStr = v.jsonStr := by
  cases v with
  | tagged => cases h
  | _ => rfl

theorem untagged_of_mem {fields : List (Key × Yaml F)} (h : untaggedFields fields = true)
    {f : Key × Yaml F} (hf : f ∈ fields) : f.2.untagged = true := by
  induction fields with
  | nil => cases hf
  | cons g fields ih =>
    obtain ⟨hg, hrest⟩ := Bool.and_eq_true_iff.mp h
    rcases List.mem_cons.mp hf with rfl | hf
    · exact hg
    · exact ih hrest hf

theorem untagged_of_item {items : List (Yaml F)} (h : untaggedItems items = true) {e : Yaml F}
    (he : e ∈ items) : e.untagged = true := by
  induction items with
  | nil => cases he
  | cons v items ih =>
    obtain ⟨hv, hrest⟩ := Bool.and_eq_true_iff.mp h
    rcases List.mem_cons.mp he with rfl | he
    · exact hv
    · exact ih hrest he

theorem verifiedByPerson_of_untagged {e : Yaml F} (h : e.untagged = true) :
    e.verifiedByPerson = e.plainPerson := by
  rw [verifiedByPerson, plainPerson, jsonText]
  cases e with
  | mapping fields =>
    rw [get, jsonGet]
    cases hv : OrderedMap.get fields (field "by") with
    | none => rfl
    | some v =>
      rw [Option.bind_some, Option.bind_some,
        asStr_of_untagged (untagged_of_mem h (OrderedMap.mem_of_get hv))]
  | tagged => cases h
  | _ => rfl

end Yaml

/-- No single entry names a person, and a list names one in a way both readers see or none. -/
def Document.readAlike (d : Document F) : Bool :=
  match d.get (field "verified") with
  | some (.sequence items) => items.any Yaml.plainPerson || !items.any Yaml.indentedPerson
  | some (.mapping fields) => !(Yaml.mapping fields).recordedPerson
  | _ => true

theorem untagged_of_parses {v : Yaml F} (h : d.parses = true) (hv : d.get (field "verified") = some v) :
    v.untagged = true := by
  have hcollected : ¬knownFields.contains (field "verified") = true := by decide
  have hfield := List.all_eq_true.mp h _ (OrderedMap.mem_of_get hv)
  exact (Bool.or_eq_true_iff.mp hfield).resolve_left hcollected

theorem human_verification_agrees_iff (d : Document F) (events : List VerificationEvent)
    (h : extractVerificationEvents d = .value events) :
    (d.hasHumanVerification = true ↔ trustTier events = "human-reviewed") ↔ d.readAlike = true := by
  obtain ⟨_, hparses, -⟩ := Guarded.bind_eq_value.mp h
  rw [trustTier_extract h, hasHumanVerification_iff, readAlike]
  cases hv : d.get (field "verified") with
  | none => simp
  | some v =>
    have huntagged := untagged_of_parses (Guarded.demand_eq_value.mp hparses) hv
    cases v with
    | sequence items =>
      have hleft : (∃ e ∈ items, e.verifiedByPerson = true) ↔ items.any Yaml.plainPerson = true := by
        rw [List.any_eq_true]
        refine exists_congr fun e => and_congr_right fun he => ?_
        rw [Yaml.verifiedByPerson_of_untagged (Yaml.untagged_of_item huntagged he)]
      have hright : (∃ e ∈ items, e.recordedPerson = true) ↔
          items.any Yaml.plainPerson = true ∨ items.any Yaml.indentedPerson = true := by
        simp [Yaml.recordedPerson_eq, and_or_left, exists_or]
      simp only [Option.some.injEq, exists_eq_left', Yaml.asSequence, Yaml.sequence.injEq, reduceCtorEq,
        false_and, exists_false, or_false, hleft, hright]
      cases items.any Yaml.plainPerson <;> cases items.any Yaml.indentedPerson <;> decide
    | mapping fields => simp [Yaml.asSequence]
    | tagged => cases huntagged
    | _ => simp [Yaml.asSequence]

def verifiedDocument (verified : Yaml Unit) : Document Unit := ⟨[(field "verified", verified)], []⟩

theorem human_verification_agrees_list :
    ∃ d : Document Unit, ∃ events, extractVerificationEvents d = .value events ∧
      (d.hasHumanVerification = true ↔ trustTier events = "human-reviewed") ∧
      d.hasHumanVerification = true :=
  ⟨verifiedDocument (.sequence [event "human:ana" "2026-09-07T10:00:00Z" none]), _, rfl,
    (human_verification_agrees_iff _ _ rfl).mpr (by decide +kernel), by decide +kernel⟩

/-- A single event and an actor behind a blank count for the catalog alone. -/
theorem human_verification_unseen :
    ∃ single indented : Yaml Unit, ∃ reviewed : List VerificationEvent,
      single = event "human:ana" "2026-09-07T10:00:00Z" none ∧
      indented = .sequence [event " human:ana" "2026-09-07T10:00:00Z" none] ∧
      trustTier reviewed = "human-reviewed" ∧
      extractVerificationEvents (verifiedDocument single) = .value reviewed ∧
      (verifiedDocument single).hasHumanVerification = false ∧
      extractVerificationEvents (verifiedDocument indented) = .value reviewed ∧
      (verifiedDocument indented).hasHumanVerification = false :=
  ⟨_, _, _, rfl, rfl, by decide +kernel, rfl, by decide +kernel, rfl, by decide +kernel⟩

end Pgokf.Documents
