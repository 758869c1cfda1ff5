import Pgokf.Documents.Document
import Pgokf.Lib.Guarded
import Pgokf.Lib.Transaction

/-! # The producer the catalog projects from a contributed document -/

namespace Pgokf.Documents

open Pgokf.Lib

variable {F : Type}

def nonEmpty (t : Text) : Option Text := if trim t = [] then none else some (trim t)

variable {p : Text}

theorem nonEmpty_eq_some {t : Text} : nonEmpty t = some p ↔ trim t = p ∧ p ≠ [] := by
  rw [nonEmpty]
  split <;> simp_all
  rintro rfl
  assumption

mutual

def Yaml.untagged : Yaml F → Bool
  | .sequence items => untaggedItems items
  | .mapping fields => untaggedFields fields
  | .tagged _ _ => false
  | _ => true

def untaggedItems : List (Yaml F) → Bool
  | [] => true
  | v :: items => v.untagged && untaggedItems items

def untaggedFields : List (Key × Yaml F) → Bool
  | [] => true
  | (_, v) :: fields => v.untagged && untaggedFields fields

end

/- The fields of `RawFrontmatter` that are read by themselves; the others are collected, and refuse
a tag. -/
def knownFields : List Key := ["id", "type", "title", "description", "tags", "resource"].map field

def Document.parses (d : Document F) : Bool :=
  d.frontmatter.all fun f => knownFields.contains f.1 || f.2.untagged

/- The catalog reads the metadata as JSON: a string is a JSON string and a mapping an object. -/
def Yaml.jsonStr : Yaml F → Option Text
  | .string t => some t
  | _ => none

def Yaml.jsonGet (key : Key) : Yaml F → Option (Yaml F)
  | .mapping fields => OrderedMap.get fields key
  | _ => none

def Yaml.producer (generated : Yaml F) : Option Text :=
  match generated.jsonStr with
  | some text => nonEmpty text
  | none => ((generated.jsonGet (field "by")).bind jsonStr).bind nonEmpty

def generatedBy (d : Document F) : Option Text :=
  match (d.get (field "generated_by")).bind Yaml.jsonStr with
  | some text => nonEmpty text
  | none => (d.get (field "generated")).bind Yaml.producer

def extractGeneratedBy (d : Document F) : Guarded (Option Text) := do
  Guarded.demand d.parses
  pure (generatedBy d)

theorem extractGeneratedBy_eq_value {d : Document F} {producer : Option Text}
    (h : extractGeneratedBy d = .value producer) : producer = generatedBy d := by
  obtain ⟨-, -, h⟩ := Guarded.bind_eq_value.mp h
  exact (Guarded.pure_eq_value.mp h).symm

/-- What the catalog reads as the producer is what the contribution check reads as the actor. -/
theorem Yaml.actor_of_producer {generated : Yaml F} (h : generated.producer = some p) :
    generated.actor = some p := by
  cases generated with
  | string t => simpa [actor] using (nonEmpty_eq_some.mp h).1
  | mapping fields =>
    simp only [producer, jsonStr, jsonGet, Option.bind_eq_some_iff] at h
    obtain ⟨t, ⟨v, hv, ht⟩, hp⟩ := h
    cases v with
    | string t' =>
      cases ht
      simpa [actor, get, hv, asStr] using (nonEmpty_eq_some.mp hp).1
    | _ => cases ht
  | _ => simp [producer, jsonStr, jsonGet] at h

theorem producer_event (actor time : Text) :
    (event actor time none : Yaml F).producer = nonEmpty actor := by
  have hby : OrderedMap.get (mapping [("by", actor), ("at", time)] : Mapping F) (field "by") =
      some (.string actor) := by
    simp only [mapping, List.foldl_cons, List.foldl_nil]
    rw [OrderedMap.get_insert_of_ne _ _ (by decide), OrderedMap.get_insert_self]
  simp [event, withNote, noteOf, Yaml.producer, Yaml.jsonStr, Yaml.jsonGet, hby]

namespace Document

theorem get_stampOrigin_generated (d : Document F) (actor time : Text) :
    (d.stampOrigin actor time).get (field "generated") =
      some ((d.get (field "generated")).getD (event actor time none)) := by
  have hauthor : field "generated" ≠ field "author" := by decide
  rw [stampOrigin]
  cases hg : d.get (field "generated") with
  | none =>
    simp only [Option.isSome_none, Bool.false_eq_true, if_false, Option.getD_none]
    split
    · exact get_set_self ..
    · rw [get_set_of_ne _ _ hauthor, get_set_self]
  | some g =>
    simp only [Option.isSome_some, if_true, Option.getD_some]
    split
    · exact hg
    · rw [get_set_of_ne _ _ hauthor, hg]

variable {key : Key}

theorem get_stampOrigin_of_ne (d : Document F) (actor time : Text) (hg : key ≠ field "generated")
    (ha : key ≠ field "author") :
    (d.stampOrigin actor time).get key = d.get key := by
  have hfirst (d' : Document F) (h : d'.get key = d.get key) :
      (if (d'.get (field "author")).isSome then d'
        else d'.set (field "author") (.string actor)).get key = d.get key := by
    split
    · exact h
    · rw [get_set_of_ne _ _ ha, h]
  rw [stampOrigin]
  refine hfirst _ ?_
  split
  · rfl
  · exact get_set_of_ne _ _ hg

variable {d : Document F} {actor time : Text} {r : Document F × Nat}

theorem contributeNew_ok (h : d.contributeNew actor time = .ok r) :
    (∀ key ∈ ["generated", "author"], d.claimsPerson actor (field key) = none) ∧
      r = (d.stampOrigin actor time).quarantineVerifications actor time "uploaded" := by
  have hcheck (key : String) (h : d.checkAttribution actor key = .ok ()) :
      d.claimsPerson actor (field key) = none := by
    rw [checkAttribution] at h
    split at h
    · cases h
    · assumption
  obtain ⟨⟨⟩, hgenerated, h⟩ := bind_eq_ok.mp h
  obtain ⟨⟨⟩, hauthor, h⟩ := bind_eq_ok.mp h
  refine ⟨?_, (pure_eq_ok.mp h).symm⟩
  simpa using ⟨hcheck _ hgenerated, hcheck _ hauthor⟩

/-- No field of an accepted contribution of something that is no person names a person. -/
theorem actorOf_not_human {p : Text} (hactor : ¬ human <+: actor) (h : d.claimsPerson actor key = none)
    (hp : d.actorOf key = some p) : ¬ human <+: p := by
  intro hhuman
  have hne : p ≠ actor := by
    rintro rfl
    exact hactor hhuman
  simp [claimsPerson, hp, Option.filter, hhuman, hne, hactor] at h

/- The document's own `generated_by` decides, if it is a string; otherwise `generated` does. -/
def namesPerson (d : Document F) (actor : Text) : Bool :=
  match d.get (field "generated_by") with
  | some (.string t) => human.isPrefixOf (trim t)
  | _ => (d.get (field "generated")).isNone && human.isPrefixOf (trim actor)

def namesProducer (d : Document F) (actor : Text) : Bool :=
  match d.get (field "generated_by") with
  | some (.string t) => trim t = actor ∧ actor ≠ []
  | _ => trim actor = actor ∧ actor ≠ []

variable {t : Text}

theorem generatedBy_of_string (h : d.get (field "generated_by") = some (.string t)) :
    generatedBy d = nonEmpty t := by
  simp [generatedBy, h, Yaml.jsonStr]

theorem generatedBy_of_ne_string (h : ∀ t, d.get (field "generated_by") ≠ some (.string t)) :
    generatedBy d = (d.get (field "generated")).bind Yaml.producer := by
  have hnone : (d.get (field "generated_by")).bind Yaml.jsonStr = none := by
    cases hv : d.get (field "generated_by") with
    | none => rfl
    | some v => cases v with
      | string t => exact absurd hv (h t)
      | _ => rfl
  rw [generatedBy, hnone]

theorem not_human_nonEmpty :
    (∀ p, nonEmpty t = some p → ¬ human <+: p) ↔ human.isPrefixOf (trim t) = false := by
  rw [← Bool.not_eq_true, List.isPrefixOf_iff_prefix]
  constructor
  · intro h hhuman
    have hne : trim t ≠ [] := by
      intro hnil
      rw [hnil] at hhuman
      exact absurd (List.prefix_nil.mp hhuman) (by decide)
    exact h _ (nonEmpty_eq_some.mpr ⟨rfl, hne⟩) hhuman
  · intro h p hp
    rwa [← (nonEmpty_eq_some.mp hp).1]

theorem generatedBy_new (hactor : ¬ human <+: actor) (h : d.contributeNew actor time = .ok r) :
    (∀ p, generatedBy r.1 = some p → ¬ human <+: p) ↔ d.namesPerson actor = false := by
  obtain ⟨hclaims, rfl⟩ := contributeNew_ok h
  have hby : ((d.stampOrigin actor time).quarantineVerifications actor time
      "uploaded").1.get (field "generated_by") = d.get (field "generated_by") := by
    rw [get_quarantine_of_ne _ _ _ _ (by decide) (by decide),
      get_stampOrigin_of_ne _ _ _ (by decide) (by decide)]
  have hgen : ((d.stampOrigin actor time).quarantineVerifications actor time
      "uploaded").1.get (field "generated") =
        some ((d.get (field "generated")).getD (event actor time none)) := by
    rw [get_quarantine_of_ne _ _ _ _ (by decide) (by decide), get_stampOrigin_generated]
  rw [namesPerson]
  split
  next t ht => rw [generatedBy_of_string (hby.trans ht), not_human_nonEmpty]
  next hother =>
    rw [generatedBy_of_ne_string (by rw [hby]; exact hother), hgen]
    cases hg : d.get (field "generated") with
    | none =>
      simp only [Option.getD_none, Option.bind_some, producer_event, Option.isNone_none,
        Bool.true_and]
      exact not_human_nonEmpty
    | some g =>
      -- A declared `generated` is the field the contribution check reads.
      simp only [Option.getD_some, Option.bind_some, Option.isNone_some, Bool.false_and, iff_true]
      intro p hp
      refine actorOf_not_human hactor (hclaims "generated" (by simp)) ?_
      rw [actorOf, hg]
      exact Yaml.actor_of_producer hp

theorem generatedBy_edit (eq : Yaml F → Yaml F → Bool) (d : Document F) (actor time : Text)
    (stored : Option (Document F)) :
    generatedBy (d.contributeEdit eq actor time stored).1 = some actor ↔
      d.namesProducer actor = true := by
  have hgen : (d.contributeEdit eq actor time stored).1.get (field "generated") =
      some (event actor time none) := get_set_self ..
  have hby : (d.contributeEdit eq actor time stored).1.get (field "generated_by") =
      d.get (field "generated_by") := by
    rw [contributeEdit, get_set_of_ne _ _ (by decide),
      get_quarantine_of_ne _ _ _ _ (by decide) (by decide),
      get_inheriting_of_ne _ _ _ (by decide) (by decide)]
  rw [namesProducer]
  split
  next t ht =>
    rw [generatedBy_of_string (hby.trans ht), nonEmpty_eq_some]
    simp
  next hother =>
    rw [generatedBy_of_ne_string (by rw [hby]; exact hother), hgen, Option.bind_some,
      producer_event, nonEmpty_eq_some]
    simp

/-- A string `generated_by`, which no contribution checks or rewrites, decides who is shown as the
producer; without it the contribution does. -/
theorem projected_producer (eq : Yaml F → Yaml F → Bool) (d : Document F) (actor time : Text)
    (stored : Option (Document F)) :
    (∀ r producer, ¬ human <+: actor → d.contributeNew actor time = .ok r →
      extractGeneratedBy r.1 = .value producer →
        ((∀ p, producer = some p → ¬ human <+: p) ↔ d.namesPerson actor = false)) ∧
    ∀ producer, extractGeneratedBy (d.contributeEdit eq actor time stored).1 = .value producer →
      (producer = some actor ↔ d.namesProducer actor = true) := by
  constructor
  · intro r producer hactor hnew hread
    rw [extractGeneratedBy_eq_value hread]
    exact generatedBy_new hactor hnew
  · intro producer hread
    rw [extractGeneratedBy_eq_value hread]
    exact generatedBy_edit eq d actor time stored

def sampleDocument (fields : List (String × String)) : Document Unit :=
  ⟨mapping (fields.map fun f => (f.1, f.2.toList)), []⟩

theorem projected_producer_agent :
    (∃ r producer, (sampleDocument [("title", "Failover")]).contributeNew "agent:scribe"
        "2026-09-07T10:00:00Z" = .ok r ∧ extractGeneratedBy r.1 = .value producer ∧
      ∀ p, producer = some p → ¬ human <+: p) ∧
    extractGeneratedBy ((sampleDocument [("title", "Failover")]).contributeEdit (fun _ _ => false)
      "human:alice" "2026-09-07T10:00:00Z" none).1 =
        .value (some "human:alice") := by
  have hnew := (projected_producer (fun _ _ => false) (sampleDocument [("title", "Failover")])
    "agent:scribe" "2026-09-07T10:00:00Z" none).1
  have hedit := (projected_producer (fun _ _ => false) (sampleDocument [("title", "Failover")])
    "human:alice" "2026-09-07T10:00:00Z" none).2
  refine ⟨⟨_, _, rfl, rfl, (hnew _ _ (by decide) rfl rfl).mpr (by decide +kernel)⟩, ?_⟩
  exact congrArg Guarded.value ((hedit _ rfl).mpr (by decide +kernel))

/-- What an agent files under `generated_by` as a person's is accepted and shown so, also after an
edit by someone else. -/
theorem generated_by_passes_for_person :
    (∃ r, (sampleDocument [("generated_by", "human:alice")]).contributeNew "agent:scribe"
        "2026-09-07T10:00:00Z" = .ok r ∧
      extractGeneratedBy r.1 = .value (some "human:alice")) ∧
    extractGeneratedBy ((sampleDocument [("generated_by", "human:alice")]).contributeEdit
      (fun _ _ => false) "human:bob" "2026-09-07T10:00:00Z" none).1 =
        .value (some "human:alice") := by
  refine ⟨⟨_, rfl, ?_⟩, ?_⟩ <;> decide +kernel

end Document

end Pgokf.Documents
