import Pgokf.Lib.Ragged
import Pgokf.Sync.Tables

/-! # The columns of a batch of concepts (`marshal_concepts` of `batch.rs`), and the rows its
statement reads from them -/

namespace Pgokf.Sync.Marshalling

open Pgokf.Lib

variable {J F : Type}

structure ParsedConcept (J : Type) where
  id : Text
  path : Text
  type : Text
  title : Text
  description : Option Text
  tags : List Text
  resource : Option J
  bodyText : Text

structure StagedConcept (J F : Type) where
  concept : ParsedConcept J
  fileHash : Text
  modifiedAtEpoch : Option F

structure ConceptColumns (F : Type) where
  ids : List Text
  paths : List Text
  types : List Text
  titles : List Text
  descriptions : List (Option Text)
  tagsFlat : List Text
  tagLos : List Int
  tagHis : List Int
  resources : List (Option Text)
  bodyTexts : List Text
  fileHashes : List Text
  modifiedAts : List (Option F)

def i32Max : Nat := 2147483647

/- A count beyond the range of an `i32` becomes its greatest value. -/
def countToI32 (count : Nat) : Int := if count ≤ i32Max then count else i32Max

def ConceptColumns.empty : ConceptColumns F := ⟨[], [], [], [], [], [], [], [], [], [], [], []⟩

section Marshal

variable (toString : J → Text)

/- One round of the loop; `offset` counts the tags of the rounds before. -/
def pushConcept : ConceptColumns F × Nat → StagedConcept J F → ConceptColumns F × Nat
  | (columns, offset), staged =>
    let concept := staged.concept
    let len := concept.tags.length
    ({ ids := columns.ids ++ [concept.id]
       paths := columns.paths ++ [concept.path]
       types := columns.types ++ [concept.type]
       titles := columns.titles ++ [concept.title]
       descriptions := columns.descriptions ++ [concept.description]
       tagsFlat := columns.tagsFlat ++ concept.tags
       tagLos := columns.tagLos ++ [countToI32 (offset + 1)]
       tagHis := columns.tagHis ++ [countToI32 (offset + len)]
       resources := columns.resources ++ [concept.resource.map toString]
       bodyTexts := columns.bodyTexts ++ [concept.bodyText]
       fileHashes := columns.fileHashes ++ [staged.fileHash]
       modifiedAts := columns.modifiedAts ++ [staged.modifiedAtEpoch] },
      offset + len)

def marshalConcepts (batch : List (StagedConcept J F)) : ConceptColumns F :=
  (batch.foldl (pushConcept toString) (ConceptColumns.empty, 0)).1

def tagLists (batch : List (StagedConcept J F)) : List (List Text) := batch.map (·.concept.tags)

def columnsOf (batch : List (StagedConcept J F)) : ConceptColumns F where
  ids := batch.map (·.concept.id)
  paths := batch.map (·.concept.path)
  types := batch.map (·.concept.type)
  titles := batch.map (·.concept.title)
  descriptions := batch.map (·.concept.description)
  tagsFlat := (tagLists batch).flatten
  tagLos := (Ragged.windows 0 (tagLists batch)).map (countToI32 ·.1)
  tagHis := (Ragged.windows 0 (tagLists batch)).map (countToI32 ·.2)
  resources := batch.map (·.concept.resource.map toString)
  bodyTexts := batch.map (·.concept.bodyText)
  fileHashes := batch.map (·.fileHash)
  modifiedAts := batch.map (·.modifiedAtEpoch)

theorem pushConcept_columnsOf (done : List (StagedConcept J F)) (staged : StagedConcept J F) :
    pushConcept toString (columnsOf toString done, (tagLists done).flatten.length) staged =
      (columnsOf toString (done ++ [staged]), (tagLists (done ++ [staged])).flatten.length) := by
  have hlists : tagLists (done ++ [staged]) = tagLists done ++ [staged.concept.tags] := List.map_append
  simp only [pushConcept, columnsOf, hlists, Ragged.windows_append, List.map_append, List.map_cons,
    List.map_nil,
    List.flatten_append, List.flatten_cons, List.flatten_nil, List.append_nil, List.length_append,
      Nat.zero_add]

theorem foldl_pushConcept (done rest : List (StagedConcept J F)) :
    rest.foldl (pushConcept toString) (columnsOf toString done, (tagLists done).flatten.length) =
      (columnsOf toString (done ++ rest), (tagLists (done ++ rest)).flatten.length) := by
  induction rest generalizing done with
  | nil => simp
  | cons staged rest ih =>
    rw [List.foldl_cons, pushConcept_columnsOf, ih, List.append_assoc, List.singleton_append]

theorem marshalConcepts_eq (batch : List (StagedConcept J F)) :
    marshalConcepts toString batch = columnsOf toString batch := by
  have hrun := foldl_pushConcept toString [] batch
  exact congrArg Prod.fst hrun

end Marshal

/-! ### Windows and rows -/

theorem countToI32_of_le {count : Nat} (h : count ≤ i32Max) : countToI32 count = count := if_pos h

def tagCount (batch : List (StagedConcept J F)) : Nat := (batch.map (·.concept.tags.length)).sum

theorem length_flatten_tagLists (batch : List (StagedConcept J F)) :
    (tagLists batch).flatten.length = tagCount batch := by
  rw [List.length_flatten, tagLists, List.map_map, tagCount]
  rfl

theorem tagCount_append (done : List (StagedConcept J F)) (staged : StagedConcept J F)
    (rest : List (StagedConcept J F)) :
    tagCount (done ++ staged :: rest) = tagCount done + staged.concept.tags.length + tagCount rest := by
  simp [tagCount, Nat.add_assoc]

section Rows

variable (toString : J → Text)

variable {done rest : List (StagedConcept J F)} {staged : StagedConcept J F}

/- The position behind the last tag is the greatest number a window needs. -/
theorem window_of_row (h : tagCount (done ++ staged :: rest) < i32Max) :
    (columnsOf toString (done ++ staged :: rest)).tagLos[done.length]? = some
      ((tagCount done + 1 : Nat) : Int) ∧
      (columnsOf toString (done ++ staged :: rest)).tagHis[done.length]? =
        some ((tagCount done + staged.concept.tags.length : Nat) : Int) := by
  rw [tagCount_append] at h
  have hlists : tagLists (done ++ staged :: rest) = tagLists done ++
    staged.concept.tags :: tagLists rest := by
    simp [tagLists]
  have hat := Ragged.windows_at 0 (tagLists done) staged.concept.tags (tagLists rest)
  have hlength : (tagLists done).length = done.length := List.length_map _
  rw [← hlists, length_flatten_tagLists, Nat.zero_add, hlength] at hat
  have hlo := countToI32_of_le (show tagCount done + 1 ≤ i32Max by omega)
  have hhi := countToI32_of_le (show tagCount done + staged.concept.tags.length ≤ i32Max by omega)
  refine ⟨?_, ?_⟩
  · rw [columnsOf, List.getElem?_map, hat, Option.map_some, hlo]
  · rw [columnsOf, List.getElem?_map, hat, Option.map_some, hhi]

theorem slice_of_row (done : List (StagedConcept J F)) (staged : StagedConcept J F)
    (rest : List (StagedConcept J F)) :
    Ragged.slice (columnsOf toString (done ++ staged :: rest)).tagsFlat ((tagCount done + 1 : Nat) : Int)
        ((tagCount done + staged.concept.tags.length : Nat) : Int) = staged.concept.tags := by
  have hflat : (columnsOf toString (done ++ staged :: rest)).tagsFlat =
      (tagLists done).flatten ++ staged.concept.tags ++ (tagLists rest).flatten := by
    simp [columnsOf, tagLists]
  rw [hflat, ← length_flatten_tagLists]
  exact Ragged.slice_window _ _ _

/-- The row of the statement's `unnest`; the window of its tags is cut out of the flat array. -/
structure ConceptRow (F : Type) where
  id : Text
  path : Text
  type : Text
  title : Text
  description : Option Text
  tags : List Text
  resource : Option Text
  bodyText : Text
  fileHash : Text
  modifiedAt : Option F

def ConceptColumns.row (columns : ConceptColumns F) (i : Nat) : Option (ConceptRow F) := do
  let lo ← columns.tagLos[i]?
  let hi ← columns.tagHis[i]?
  pure {
    id := ← columns.ids[i]?
    path := ← columns.paths[i]?
    type := ← columns.types[i]?
    title := ← columns.titles[i]?
    description := ← columns.descriptions[i]?
    tags := Ragged.slice columns.tagsFlat lo hi
    resource := ← columns.resources[i]?
    bodyText := ← columns.bodyTexts[i]?
    fileHash := ← columns.fileHashes[i]?
    modifiedAt := ← columns.modifiedAts[i]? }

def ConceptColumns.unnest (columns : ConceptColumns F) : List (ConceptRow F) :=
  (List.range columns.ids.length).filterMap columns.row

def StagedConcept.row (toString : J → Text) (staged : StagedConcept J F) : ConceptRow F where
  id := staged.concept.id
  path := staged.concept.path
  type := staged.concept.type
  title := staged.concept.title
  description := staged.concept.description
  tags := staged.concept.tags
  resource := staged.concept.resource.map toString
  bodyText := staged.concept.bodyText
  fileHash := staged.fileHash
  modifiedAt := staged.modifiedAtEpoch

theorem row_columnsOf (h : tagCount (done ++ staged :: rest) < i32Max) :
    (columnsOf toString (done ++ staged :: rest)).row done.length = some (staged.row toString) := by
  obtain ⟨hlo, hhi⟩ := window_of_row toString h
  have hslice := slice_of_row toString done staged rest
  have hcell : ∀ {β : Type} (f : StagedConcept J F → β),
      ((done ++ staged :: rest).map f)[done.length]? = some (f staged) := by
    intro β f
    simp
  simp only [ConceptColumns.row, hlo, hhi]
  simp only [columnsOf, hcell] at hslice ⊢
  simp only [Option.pure_def, Option.bind_eq_bind, Option.bind_some, hslice, StagedConcept.row]

theorem unnest_marshalConcepts {batch : List (StagedConcept J F)} (h : tagCount batch < i32Max) :
    (marshalConcepts toString batch).unnest = batch.map (·.row toString) := by
  have hlength : (columnsOf toString batch).ids.length = batch.length := List.length_map _
  rw [marshalConcepts_eq, ConceptColumns.unnest, hlength]
  apply Ragged.filterMap_range
  rintro done staged rest rfl
  exact row_columnsOf toString h

/-- The rows of all statements of `upsert_concepts`, one for each batch. -/
def upsertRows (staged : List (StagedConcept J F)) : List (ConceptRow F) :=
  (chunks batchSize staged).flatMap fun chunk => (marshalConcepts toString chunk).unnest

theorem upsertRows_eq {staged : List (StagedConcept J F)}
    (h : ∀ chunk ∈ chunks batchSize staged, tagCount chunk < i32Max) :
    upsertRows toString staged = staged.map (·.row toString) := by
  have hchunks : upsertRows toString staged = (chunks batchSize staged).flatMap
    (List.map (·.row toString)) :=
    List.flatMap_congr fun chunk hchunk => unnest_marshalConcepts toString (h chunk hchunk)
  rw [hchunks, List.flatMap_def, ← List.map_flatten, flatten_chunks batchSize_pos]

theorem upsertRows_eq_two :
    let concept (tags : List Text) : StagedConcept Unit Unit :=
      ⟨⟨[], [], [], [], none, tags, none, []⟩, [], none⟩
    (upsertRows (fun _ => []) [concept [], concept [['x'], ['y']]]).map (·.tags) =
      [[], [['x'], ['y']]] := by
  intro concept
  rw [upsertRows_eq _ (by decide)]
  rfl

structure ConceptColumns.Aligned (columns : ConceptColumns F) (length : Nat) : Prop where
  ids : columns.ids.length = length
  paths : columns.paths.length = length
  types : columns.types.length = length
  titles : columns.titles.length = length
  descriptions : columns.descriptions.length = length
  tagLos : columns.tagLos.length = length
  tagHis : columns.tagHis.length = length
  resources : columns.resources.length = length
  bodyTexts : columns.bodyTexts.length = length
  fileHashes : columns.fileHashes.length = length
  modifiedAts : columns.modifiedAts.length = length

theorem columnsOf_aligned (batch : List (StagedConcept J F)) :
    (columnsOf toString batch).Aligned batch.length := by
  constructor <;> simp [columnsOf, tagLists]

/-- The columns of a batch are as long as it, and the window of each row holds the tags of the row. -/
theorem marshal_concepts_windows {batch : List (StagedConcept J F)} (h : tagCount batch < i32Max) :
    (marshalConcepts toString batch).Aligned batch.length ∧
      ∀ (i : Nat) (staged : StagedConcept J F), batch[i]? = some staged → ∃ lo hi : Int,
        (marshalConcepts toString batch).tagLos[i]? = some lo ∧
          (marshalConcepts toString batch).tagHis[i]? = some hi ∧
        1 ≤ lo ∧ hi ≤ (marshalConcepts toString batch).tagsFlat.length ∧
          hi = lo - 1 + staged.concept.tags.length ∧
        Ragged.slice (marshalConcepts toString batch).tagsFlat lo hi = staged.concept.tags := by
  rw [marshalConcepts_eq]
  refine ⟨columnsOf_aligned toString batch, ?_⟩
  intro i staged hi
  obtain ⟨hlt, hget⟩ := List.getElem?_eq_some_iff.mp hi
  obtain ⟨done, rest, rfl, rfl⟩ : ∃ done rest, batch = done ++ staged :: rest ∧ done.length = i := by
    refine ⟨batch.take i, batch.drop (i + 1), ?_, by simpa using hlt.le⟩
    rw [← hget, ← List.drop_eq_getElem_cons hlt, List.take_append_drop]
  obtain ⟨hlo, hhi⟩ := window_of_row toString h
  have hflat : (columnsOf toString (done ++ staged :: rest)).tagsFlat.length =
      tagCount done + staged.concept.tags.length + tagCount rest := by
    rw [columnsOf, length_flatten_tagLists, tagCount_append]
  refine ⟨_, _, hlo, hhi, ?_, ?_, ?_, slice_of_row toString done staged rest⟩
  · omega
  · omega
  · omega

/- A row without tags between two that have some. -/
theorem marshal_concepts_windows_three :
    let concept (id : Char) (tags : List Text) : StagedConcept Unit Unit :=
      ⟨⟨[id], [id], ['n'], [id], none, tags, none, []⟩, [], none⟩
    let batch := [concept 'a' [['x']], concept 'b' [], concept 'c' [['y'], ['z']]]
    (marshalConcepts (fun _ => []) batch).tagLos = [1, 2, 2] ∧
      (marshalConcepts (fun _ => []) batch).tagHis = [1, 1, 3] ∧
      (marshalConcepts (fun _ => []) batch).Aligned 3 := by
  intro concept batch
  have hcount : tagCount batch < i32Max := by decide
  exact ⟨by decide, by decide, marshal_concepts_windows (fun _ => []) hcount |>.1⟩

end Rows

end Pgokf.Sync.Marshalling
