import Pgokf.Lib.Decimal
import Pgokf.Lib.Path
import Pgokf.Lib.Repeats
import Pgokf.Text

/-! # Anchors of headings (`pgokf-web`, `markdown.rs`)

`with_heading_ids` gives every heading without an id a slug of its text, and numbers slugs that
repeat. -/

namespace Pgokf.Web

open Lib

/- `char::is_alphanumeric` and `char::to_lowercase`. -/
structure CharTables where
  isAlphanumeric : Char → Bool
  toLowercase : Char → List Char

/- The events of the Markdown parser, as far as they are told apart. -/
inductive MarkdownEvent where
  | startHeading (id : Option Text)
  | endHeading
  | text (t : Text)
  | code (t : Text)
  | other
  deriving DecidableEq

variable (tables : CharTables)

def slugChar (c : Char) : Text :=
  if tables.isAlphanumeric c || c == '_' then tables.toLowercase c
  else if c == ' ' || c == '-' then ['-']
  else []

def headingSlug (text : Text) : Text :=
  let out := (trim text).flatMap (slugChar tables)
  if out.isEmpty then "section" else out

def MarkdownEvent.heard : MarkdownEvent → Text
  | .text t | .code t => t
  | _ => []

def headingText (events : List MarkdownEvent) : Text :=
    (events.takeWhile (· != .endHeading)).flatMap MarkdownEvent.heard

def numberedId (base : Text) (n : Nat) : Text := base ++ '-' :: (toString n).toList

def withHeadingIds (seen : OrderedMap Text Nat) : List MarkdownEvent → List MarkdownEvent
  | [] => []
  | .startHeading none :: rest =>
    let base := headingSlug tables (headingText rest)
    let n := (seen.get base).getD 0
    .startHeading (some (if n = 0 then base else numberedId base n)) :: withHeadingIds
      (seen.insert base (n + 1)) rest
  | event :: rest => event :: withHeadingIds seen rest

def headingIds (events : List MarkdownEvent) : List Text :=
  events.filterMap fun event =>
    match event with
    | .startHeading id => id
    | _ => none

def headingSlugs : List MarkdownEvent → List Text
  | [] => []
  | .startHeading _ :: rest => headingSlug tables (headingText rest) :: headingSlugs rest
  | _ :: rest => headingSlugs rest

variable {tables}

/-- The ids are the slugs, each numbered by how often it was there before. -/
theorem headingIds_withHeadingIds {before : List Text} {seen : OrderedMap Text Nat}
    {events : List MarkdownEvent}
    (hseen : Counts before seen) (h : ∀ id, .startHeading (some id) ∉ events) :
    headingIds (withHeadingIds tables seen events) =
      (occurrences before (headingSlugs tables events)).map (tag numberedId) := by
  induction events generalizing before seen with
  | nil => rfl
  | cons event rest ih =>
    have hrest : ∀ id, .startHeading (some id) ∉ rest := fun id hmem =>
      h id (List.mem_cons_of_mem _ hmem)
    cases event with
    | startHeading id =>
      cases id with
      | some id => exact absurd List.mem_cons_self (h id)
      | none =>
        have hcount := hseen (headingSlug tables (headingText rest))
        have hnext := hseen.insert (headingSlug tables (headingText rest))
        rw [withHeadingIds, headingSlugs, occurrences, List.map_cons, hcount, ← ih hnext hrest]
        rfl
    | endHeading | text t | code t | other => exact ih hseen hrest

theorem numberedId_inj (a b : Text) (m n : Nat) (h : numberedId a m = numberedId b n) : a = b ∧
    m = n := by
  have hdigits : ∀ k : Nat, '-' ∉ (toString k).toList := by
    intro k
    rw [toString_nat_toList]
    exact notMem_toDigits k
  have hleft : rsplitOnce '-' (numberedId a m) = some (a, (toString m).toList) :=
    rsplitOnce_some.mpr ⟨rfl, hdigits m⟩
  have hright : rsplitOnce '-' (numberedId b n) = some (b, (toString n).toList) :=
    rsplitOnce_some.mpr ⟨rfl, hdigits n⟩
  rw [h, hright] at hleft
  obtain ⟨hbase, hnumber⟩ := Prod.mk.inj (Option.some.inj hleft)
  rw [toString_nat_toList, toString_nat_toList] at hnumber
  exact ⟨hbase.symm, (toDigits_inj hnumber).symm⟩

/-- The ids of the headings are distinct unless the slug of one is a number that another, repeated
slug is given. -/
theorem heading_ids_distinct_iff (tables : CharTables) (events : List MarkdownEvent)
    (h : ∀ id, .startHeading (some id) ∉ events) :
    (headingIds (withHeadingIds tables [] events)).Nodup ↔
      ¬∃ slug k, k ≠ 0 ∧ k < (headingSlugs tables events).count slug ∧
        numberedId slug k ∈ headingSlugs tables events := by
  have hseen : Counts [] ([] : OrderedMap Text Nat) := fun _ => rfl
  rw [headingIds_withHeadingIds hseen h]
  exact nodup_tags_iff fun a b m n _ _ => numberedId_inj a b m n

def asciiTables : CharTables where
  isAlphanumeric := Char.isAlphanum
  toLowercase c := [c.toLower]

def heading (text : String) : List MarkdownEvent := [.startHeading none, .text text.toList, .endHeading]

theorem heading_ids_distinct_three :
    headingIds (withHeadingIds asciiTables []
      (heading "Roles" ++ heading "Roles" ++ heading "Roles 2")) =
        ["roles".toList, "roles-1".toList, "roles-2".toList] ∧
      (headingIds (withHeadingIds asciiTables []
        (heading "Roles" ++ heading "Roles" ++ heading "Roles 2"))).Nodup := by
  refine ⟨by decide +kernel, (heading_ids_distinct_iff asciiTables _ (by simp [heading])).mpr ?_⟩
  have hslugs : headingSlugs asciiTables (heading "Roles" ++ heading "Roles" ++ heading "Roles 2") =
      ["roles".toList, "roles".toList, "roles-2".toList] := by decide +kernel
  rw [hslugs]
  rintro ⟨slug, k, hk, hcount, hnumbered⟩
  have hroles : ["roles".toList, "roles".toList, "roles-2".toList].count "roles".toList = 2 :=
    by decide +kernel
  have hother : ["roles".toList, "roles".toList, "roles-2".toList].count "roles-2".toList = 1 :=
    by decide +kernel
  have hslug : slug ∈ ["roles".toList, "roles".toList, "roles-2".toList] :=
    List.count_pos_iff.mp (by omega)
  simp only [List.mem_cons, List.not_mem_nil, or_false] at hslug
  rcases hslug with rfl | rfl | rfl
  · obtain rfl : k = 1 := by omega
    exact absurd hnumbered (by decide +kernel)
  · obtain rfl : k = 1 := by omega
    exact absurd hnumbered (by decide +kernel)
  · omega

/-- The second `Roles` and the first `Roles 1`. -/
theorem heading_id_repeated :
    (∀ id, MarkdownEvent.startHeading (some id) ∉ heading "Roles" ++ heading "Roles" ++
      heading "Roles 1") ∧
      headingIds (withHeadingIds asciiTables []
        (heading "Roles" ++ heading "Roles" ++ heading "Roles 1")) =
        ["roles".toList, "roles-1".toList, "roles-1".toList] :=
  ⟨by simp [heading], by decide +kernel⟩

end Pgokf.Web
