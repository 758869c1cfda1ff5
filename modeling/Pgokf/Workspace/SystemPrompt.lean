import Pgokf.Lib.Fitting
import Pgokf.Lib.Keyset
import Pgokf.Sync.Frontmatter
import Pgokf.Workspace.Records

/-! # The system prompt of a prompt bundle (`pgokf-workspace`, `plugin.rs`)

`system_prompt`: as many documents as fit a budget of bytes, most trusted first. The banner of a
stale document is a parameter. -/

namespace Pgokf.Workspace

open Lib Guarded Catalog Sync

structure PromptRecord extends ConceptRecord where
  conceptType : Option Text
  tags : List Text

def promptBudget : Nat := 24000

def trustRank (tier : Text) : Nat :=
  if tier = "human-reviewed" then 0 else if tier = "machine-confirmed" then 1 else 2

/-- `strip_frontmatter`. -/
def promptBody (text : Text) : Guarded Text :=
  match afterOpen (stripBom text) with
  | none => pure text
  | some after =>
    match scanBody (splitInclusive '\n' after) 0 with
    | none => pure text
    | some bodyStart => sliceFrom after bodyStart

def promptPreamble (catalog title : Text) : Text :=
  "You have curated knowledge from " ++ catalog ++ " (a pgokf catalog), titled " ++
    title ++ ". Use it when relevant; say so when it does not cover a question.\n\n"

def promptHeader (record : PromptRecord) : Text :=
  "\n## ".toList ++ record.title.getD record.conceptId ++ " (".toList ++
    record.conceptType.getD "concept".toList ++
    (if record.tags.isEmpty then [] else "; ".toList ++ ", ".toList.intercalate record.tags) ++
    ")\n\n".toList

def closingNote (included total : Nat) : Text :=
  if included < total then
    "\n(" ++ (toString included).toList ++ " of " ++ (toString total).toList ++
      " documents inlined; the rest are under knowledge/.)\n"
  else []

structure PromptState where
  out : Text
  used : Nat
  included : Nat

section Prompt

variable (banner : PromptRecord → Text)

def promptNotice (record : PromptRecord) : Option Text :=
  if record.freshness.isStale then some (banner record) else none

/-- One document. What it is counted as and what is written of it are not the same. -/
def promptStep (state : PromptState) (record : PromptRecord) : Guarded PromptState :=
  match decodeUtf8 record.bytes with
  | none => pure state
  | some text => do
    let body ← promptBody text
    let header := promptHeader record
    let notice := promptNotice banner record
    let noticeLen := notice.elim 0 lineBytes
    if promptBudget < state.used + lineBytes header + noticeLen + lineBytes body then pure state
    else pure {
      out := state.out ++ header ++ notice.getD [] ++ trim body ++ ['\n']
      used := state.used + (lineBytes header + noticeLen + lineBytes body)
      included := state.included + 1 }

def systemPrompt (catalog title : Text) (records : List PromptRecord) : Guarded Text := do
  let preamble := promptPreamble catalog title
  let state ← (ordered (fun record => trustRank record.trustTier) records).foldlM
    (promptStep banner) ⟨preamble, lineBytes preamble, 0⟩
  pure (state.out ++ closingNote state.included records.length)

end Prompt

def bodyOf (text : Text) : Text :=
  match promptBody text with
  | .value body => body
  | _ => text

section Inlined

variable (banner : PromptRecord → Text)

/-- The documents with their bodies; bytes that are no text are passed over. -/
def promptItems (records : List PromptRecord) : List (PromptRecord × Text) :=
  records.filterMap fun record => (decodeUtf8 record.bytes).map fun text => (record, bodyOf text)

def itemCost (item : PromptRecord × Text) : Nat :=
  lineBytes (promptHeader item.1) + (promptNotice banner item.1).elim 0 lineBytes + lineBytes item.2

variable {banner} {state : PromptState} {record : PromptRecord} {records : List PromptRecord}

end Inlined

/-- Every body begins or ends with white space, or all documents fit with a line break each. -/
def RoomForBreaks (banner : PromptRecord → Text) (room : Nat) (items : List (PromptRecord × Text)) :
    Prop :=
  (∀ item ∈ items, trim item.2 ≠ item.2) ∨
    (items.map fun item => itemCost banner item + 1).sum ≤ room

theorem RoomForBreaks.ordered {banner : PromptRecord → Text} {room : Nat}
    {records : List PromptRecord} (h : RoomForBreaks banner room (promptItems records)) :
    RoomForBreaks banner room
      (promptItems (ordered (fun record => trustRank record.trustTier) records)) := by
  have hperm : (promptItems (Lib.ordered (fun record => trustRank record.trustTier) records)).Perm
      (promptItems records) := ordered_perm.filterMap _
  rcases h with hblanks | hroom
  · exact .inl fun item hitem => hblanks item (hperm.subset hitem)
  · exact .inr ((hperm.map _).sum_eq.trans_le hroom)

section Filling

variable {text : Text}

end Filling

end Pgokf.Workspace
