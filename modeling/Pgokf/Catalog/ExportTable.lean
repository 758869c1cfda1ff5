import Mathlib.Data.List.ReduceOption
import Mathlib.Data.Sum.Order
import Pgokf.Lib.RowOrder
import Pgokf.Security

/-! # The tables of a bundle written to files (`catalog/export.rs`)

A table is read in batches. Each resumes after the last key of the one before and becomes a row
group. -/

namespace Pgokf.Catalog

open Lib

/-! ### Table descriptions -/

inductive PgType where
  | bigint
  | integer
  | text
  | boolean
  | timestamptzMicros
  | textArray
  | jsonb
  deriving DecidableEq

/-- The values a select list gives: timestamps come as a `bigint` and documents as their text. -/
inductive SqlValue where
  | bigint (n : Int)
  | integer (n : Int)
  | text (t : Text)
  | boolean (b : Bool)
  | textArray (items : List Text)
  deriving DecidableEq

abbrev Cell := Option SqlValue

def PgType.reads : PgType → SqlValue → Bool
  | .bigint, .bigint _ => true
  | .timestamptzMicros, .bigint _ => true
  | .integer, .integer _ => true
  | .text, .text _ => true
  | .jsonb, .text _ => true
  | .boolean, .boolean _ => true
  | .textArray, .textArray _ => true
  | _, _ => false

def PgType.debug : PgType → String
  | .bigint => "Bigint"
  | .integer => "Integer"
  | .text => "Text"
  | .boolean => "Boolean"
  | .timestamptzMicros => "TimestamptzMicros"
  | .textArray => "TextArray"
  | .jsonb => "Jsonb"

structure ColumnSpec where
  name : String
  pgType : PgType
  nullable : Bool
  selectExpr : String
  deriving DecidableEq

/-- A column that can be a key: it is never null, and selected as it is stored. -/
def ColumnSpec.isKey (c : ColumnSpec) : Bool :=
  (c.pgType = .text ∨ c.pgType = .integer) ∧ c.nullable = false ∧ c.selectExpr = c.name

structure TableSpec where
  fileName : String
  table : String
  columns : List ColumnSpec
  keyIndices : List Nat
  names_distinct : (columns.map (·.name)).Nodup
  keys_ne : keyIndices ≠ []
  keys : ∀ i ∈ keyIndices, (columns[i]?).any ColumnSpec.isKey

def TableSpec.keyColumns (spec : TableSpec) : List ColumnSpec :=
    spec.keyIndices.filterMap (spec.columns[·]?)

def TableSpec.keyNames (spec : TableSpec) : List String := spec.keyColumns.map (·.name)

def column (name : String) (pgType : PgType) (nullable : Bool) : ColumnSpec :=
    ⟨name, pgType, nullable, name⟩

def linksSpec : TableSpec where
  fileName := "links.parquet"
  table := "pgokf.links"
  columns := [column "bundle_id" .bigint false, column "source_id" .text false,
    column "target_id" .text true,
    column "link_text" .text true, column "target_path" .text true, column "link_kind" .text false,
    column "resolved" .boolean false, column "is_external" .boolean false,
      column "ordinal" .integer false]
  keyIndices := [1, 8]
  names_distinct := by decide +kernel
  keys_ne := List.cons_ne_nil _ _
  keys := by decide +kernel

structure BatchQuery where
  select : List ColumnSpec
  table : String
  -- The compared columns and the numbers of the parameters they are compared with.
  keyset : Option (List String × List Nat)
  orderBy : List String

def buildBatchQuery (spec : TableSpec) (resume : Bool) : BatchQuery where
  select := spec.columns
  table := spec.table
  keyset := if resume then some (spec.keyNames, (List.range spec.keyNames.length).map (· + 2)) else none
  orderBy := spec.keyNames

def commaSeparated (parts : List String) : String := String.intercalate ", " parts

def BatchQuery.text (q : BatchQuery) : String :=
  let keysetPredicate := match q.keyset with
    | some (columns, placeholders) =>
      " AND (" ++ commaSeparated columns ++ ") > (" ++ commaSeparated
        (placeholders.map fun n => "$" ++ toString n) ++ ")"
    | none => ""
  "SELECT " ++ commaSeparated (q.select.map fun c => c.selectExpr ++ " AS " ++ c.name) ++
    " FROM " ++ q.table ++
    " WHERE bundle_id = $1" ++ keysetPredicate ++ " ORDER BY " ++ commaSeparated q.orderBy

example : (buildBatchQuery linksSpec true).text.endsWith
    " AND (source_id, ordinal) > ($2, $3) ORDER BY source_id, ordinal" = true := by decide +kernel

structure Relation (ρ : Type) where
  rows : List ρ
  value : String → ρ → Cell

section Keys

variable {ρ C : Type} (collation : Text → C)

/-- What a value is compared by; only texts and integers are keys. -/
def SqlValue.weight : SqlValue → Option (C ⊕ₗ Int)
  | .text t => some (toLex (.inl (collation t)))
  | .integer n => some (toLex (.inr n))
  | _ => none

def weights (rel : Relation ρ) (names : List String) (row : ρ) : List (Option (C ⊕ₗ Int)) :=
  names.map fun name => (rel.value name row).bind (SqlValue.weight collation)

def Relation.ofBundle (rel : Relation ρ) (bundleId : Int) : List ρ :=
  rel.rows.filter fun row => rel.value "bundle_id" row = some (.bigint bundleId)

/-- Values have the types of their columns, and keys are unique. -/
structure Exportable (spec : TableSpec) (rel : Relation ρ) (bundleId : Int) : Prop where
  typed : ∀ row ∈ rel.ofBundle bundleId, ∀ c ∈ spec.columns,
    (rel.value c.selectExpr row).all c.pgType.reads = true ∧
      (c.nullable = false → (rel.value c.selectExpr row).isSome = true)
  unique : ((rel.ofBundle bundleId).map fun row => spec.keyNames.map (rel.value · row)).Nodup

def keyOf (spec : TableSpec) (rel : Relation ρ) (row : ρ) : List (C ⊕ₗ Int) :=
  (weights collation rel spec.keyNames row).reduceOption

variable {collation} {spec : TableSpec} {rel : Relation ρ} {bundleId : Int} {row : ρ}

variable {c : ColumnSpec}

theorem TableSpec.mem_keyColumns (hc : c ∈ spec.keyColumns) : c ∈ spec.columns ∧ c.isKey = true := by
  obtain ⟨i, hi, hget⟩ := List.mem_filterMap.mp hc
  have hkey := spec.keys i hi
  rw [hget, Option.any_some] at hkey
  exact ⟨List.mem_of_getElem? hget, hkey⟩

theorem Exportable.key_cell (h : Exportable spec rel bundleId) (hrow : row ∈ rel.ofBundle bundleId)
    (hc : c ∈ spec.keyColumns) :
    c.selectExpr = c.name ∧ ((∃ t, c.pgType = .text ∧ rel.value c.name row = some (.text t)) ∨
      ∃ n, c.pgType = .integer ∧ rel.value c.name row = some (.integer n)) := by
  obtain ⟨hmem, hkey⟩ := TableSpec.mem_keyColumns hc
  obtain ⟨htype, hnull, hexpr⟩ := of_decide_eq_true hkey
  obtain ⟨hreads, hsome⟩ := h.typed row hrow c hmem
  rw [hexpr] at hreads hsome
  obtain ⟨v, hv⟩ := Option.isSome_iff_exists.mp (hsome hnull)
  rw [hv, Option.all_some] at hreads
  refine ⟨hexpr, ?_⟩
  rcases htype with htype | htype
  · rw [htype] at hreads
    cases v with
    | text t => exact .inl ⟨t, htype, hv⟩
    | _ => cases hreads
  · rw [htype] at hreads
    cases v with
    | integer n => exact .inr ⟨n, htype, hv⟩
    | _ => cases hreads

theorem Exportable.weights_eq (h : Exportable spec rel bundleId) (hrow : row ∈ rel.ofBundle bundleId) :
    weights collation rel spec.keyNames row = (keyOf collation spec rel row).map some := by
  have hsome : ∀ w ∈ weights collation rel spec.keyNames row, w.isSome = true := by
    intro w hw
    simp only [weights, TableSpec.keyNames, List.map_map, List.mem_map, Function.comp_def] at hw
    obtain ⟨c, hc, rfl⟩ := hw
    obtain ⟨-, ⟨t, -, hv⟩ | ⟨n, -, hv⟩⟩ := h.key_cell hrow hc
    · rw [hv]
      rfl
    · rw [hv]
      rfl
  rw [keyOf]
  generalize weights collation rel spec.keyNames row = l at hsome
  induction l with
  | nil => rfl
  | cons w l ih =>
    obtain ⟨hw, hl⟩ := List.forall_mem_cons.mp hsome
    obtain ⟨a, rfl⟩ := Option.isSome_iff_exists.mp hw
    rw [List.reduceOption_cons_of_some, List.map_cons, ← ih hl]

theorem Exportable.length_keyOf (h : Exportable spec rel bundleId) (hrow : row ∈ rel.ofBundle bundleId) :
    (keyOf collation spec rel row).length = spec.keyNames.length := by
  have hlength : (weights collation rel spec.keyNames row).length = _ :=
    congrArg List.length (h.weights_eq hrow)
  rwa [weights, List.length_map, List.length_map, eq_comm] at hlength

theorem weight_inj (hinj : Function.Injective collation) {v w : SqlValue} {k : C ⊕ₗ Int}
    (hv : v.weight collation = some k) (hw : w.weight collation = some k) : v = w := by
  cases v with
  | text t =>
    cases w with
    | text t' =>
      have hsame := hv.trans hw.symm
      simp only [SqlValue.weight, Option.some.injEq, toLex_inj, Sum.inl.injEq] at hsame
      rw [hinj hsame]
    | integer n => cases hv.trans hw.symm
    | _ => cases hw
  | integer n =>
    cases w with
    | text t => cases hv.trans hw.symm
    | integer m =>
      have hsame := hv.trans hw.symm
      simp only [SqlValue.weight, Option.some.injEq, toLex_inj, Sum.inr.injEq] at hsame
      rw [hsame]
    | _ => cases hw
  | _ => cases hv

theorem Exportable.keys_nodup (h : Exportable spec rel bundleId) (hinj : Function.Injective collation) :
    ((rel.ofBundle bundleId).map (keyOf collation spec rel)).Nodup := by
  refine List.pairwise_map.mpr
    ((List.pairwise_map.mp h.unique).imp_of_mem fun {a b} ha hb hne hkey => hne ?_)
  have hweights : weights collation rel spec.keyNames a = weights collation rel spec.keyNames b := by
    rw [h.weights_eq ha, h.weights_eq hb, hkey]
  refine List.map_congr_left fun name hname => ?_
  obtain ⟨c, hc, rfl⟩ := List.mem_map.mp hname
  have hsame := List.map_inj_left.mp hweights c.name hname
  have hcell : ∀ row ∈ rel.ofBundle bundleId, ∃ v k, rel.value c.name row = some v ∧
    v.weight collation = some k := by
    intro row hrow
    obtain ⟨-, ⟨t, -, hv⟩ | ⟨n, -, hv⟩⟩ := h.key_cell hrow hc
    · exact ⟨_, _, hv, rfl⟩
    · exact ⟨_, _, hv, rfl⟩
  obtain ⟨v, k, hv, hk⟩ := hcell a ha
  obtain ⟨w, k', hw, hk'⟩ := hcell b hb
  rw [hv, hw, Option.bind_some, Option.bind_some, hk'] at hsame
  rw [hv, hw, weight_inj hinj hsame hk']

/-! ### A batch -/

def BatchQuery.project (q : BatchQuery) (rel : Relation ρ) (row : ρ) : List Cell :=
  q.select.map fun c => rel.value c.selectExpr row

inductive KeyBound where
  | text (t : Text)
  | int (n : Int)

def KeyBound.value : KeyBound → SqlValue
  | .text t => .text t
  | .int n => .integer n

structure ColumnData where
  pgType : PgType
  values : List Cell

def ColumnData.empty (pgType : PgType) : ColumnData := ⟨pgType, []⟩

def ColumnData.pushFromRow (data : ColumnData) (cell : Cell) : Except CatalogError ColumnData :=
  if cell.all data.pgType.reads then pure { data with values := data.values ++ [cell] }
  else throw (.internal "failed to read export column")

structure Batch where
  columns : List ColumnData
  lastKey : Option (List KeyBound)
  rows : Nat

def readKeyBound (column : ColumnSpec) (cell : Cell) : Except CatalogError KeyBound :=
  match column.pgType with
  | .text =>
    match cell with
    | some (.text t) => pure (.text t)
    | some _ => throw (.internal "failed to read keyset column")
    | none => throw (.internal ("keyset column " ++ column.name ++ " is unexpectedly NULL"))
  | .integer =>
    match cell with
    | some (.integer n) => pure (.int n)
    | some _ => throw (.internal "failed to read keyset column")
    | none => throw (.internal ("keyset column " ++ column.name ++ " is unexpectedly NULL"))
  | other => throw (.internal
    ("column " ++ column.name ++ " of type " ++ other.debug ++ " cannot be a keyset key"))

def readKeyBounds (spec : TableSpec) (row : List Cell) : Except CatalogError (List KeyBound) :=
  (spec.keyIndices.filterMap fun i => spec.columns[i]?.map fun c => (c, row[i]?.join)).mapM fun p =>
    readKeyBound p.1 p.2

def readRow (spec : TableSpec) (batch : Batch) (row : List Cell) : Except CatalogError Batch := do
  let columns ← (batch.columns.zip row).mapM fun p => p.1.pushFromRow p.2
  let lastKey ← readKeyBounds spec row
  pure ⟨columns, some lastKey, batch.rows + 1⟩

/- The bounds a batch resumes from, and the key they stand for. -/
inductive CursorAt (spec : TableSpec) (collation : Text → C) : Option (List KeyBound) →
    Option (List (C ⊕ₗ Int)) → Prop
  | start : CursorAt spec collation none none
  | after {bounds : List KeyBound} {key : List (C ⊕ₗ Int)}
    (length_eq : key.length = spec.keyNames.length)
    (bounds_eq : bounds.map (fun b => b.value.weight collation) = key.map some) :
      CursorAt spec collation (some bounds) (some key)

def columnsOf (spec : TableSpec) (rel : Relation ρ) (rows : List ρ) : List ColumnData :=
  spec.columns.map fun c => ⟨c.pgType, rows.map (rel.value c.selectExpr)⟩

theorem Exportable.readKeyBounds_eq (h : Exportable spec rel bundleId)
    (hrow : row ∈ rel.ofBundle bundleId) (resume : Bool) :
    ∃ bounds, readKeyBounds spec ((buildBatchQuery spec resume).project rel row) = .ok bounds ∧
      CursorAt spec collation (some bounds) (some (keyOf collation spec rel row)) := by
  have hpairs : (spec.keyIndices.filterMap fun i => spec.columns[i]?.map fun c =>
      (c, ((buildBatchQuery spec resume).project rel row)[i]?.join)) =
        spec.keyColumns.map fun c => (c, rel.value c.selectExpr row) := by
    rw [TableSpec.keyColumns, List.map_filterMap]
    refine List.filterMap_congr fun i _ => ?_
    cases hget : spec.columns[i]? with
    | none => rfl
    | some c => simp [BatchQuery.project, buildBatchQuery, hget]
  have hbound : ∀ c ∈ spec.keyColumns, ∃ b, readKeyBound c (rel.value c.selectExpr row) = .ok b ∧
      b.value.weight collation = (rel.value c.name row).bind (SqlValue.weight collation) := by
    intro c hc
    obtain ⟨hexpr, ⟨t, htype, hv⟩ | ⟨n, htype, hv⟩⟩ := h.key_cell hrow hc
    · exact ⟨.text t, by simp only [readKeyBound, htype, hexpr, hv]; rfl, by rw [hv]; rfl⟩
    · exact ⟨.int n, by simp only [readKeyBound, htype, hexpr, hv]; rfl, by rw [hv]; rfl⟩
  obtain ⟨bounds, hbounds, hweights⟩ := mapM_map_total hbound
  refine ⟨bounds, ?_, .after (h.length_keyOf hrow) ?_⟩
  · rw [readKeyBounds, hpairs, List.mapM_map]
    exact hbounds
  · rw [hweights, ← h.weights_eq hrow, weights, TableSpec.keyNames, List.map_map]
    rfl

theorem Exportable.readRow_eq (h : Exportable spec rel bundleId)
    (hrow : row ∈ rel.ofBundle bundleId) (resume : Bool)
    {rows : List ρ} {batch : Batch} (hcolumns : batch.columns = columnsOf spec rel rows)
    (hcount : batch.rows = rows.length) :
    ∃ bounds, readRow spec batch ((buildBatchQuery spec resume).project rel row) =
        .ok ⟨columnsOf spec rel (rows ++ [row]), some bounds, (rows ++ [row]).length⟩ ∧
      CursorAt spec collation (some bounds) (some (keyOf collation spec rel row)) := by
  obtain ⟨bounds, hbounds, hcursor⟩ := h.readKeyBounds_eq hrow resume
  refine ⟨bounds, ?_, hcursor⟩
  have hpush : (batch.columns.zip ((buildBatchQuery spec resume).project rel row)).mapM
      (fun p => p.1.pushFromRow p.2) = .ok (columnsOf spec rel (rows ++ [row])) := by
    rw [hcolumns, columnsOf, BatchQuery.project, buildBatchQuery, List.zip_map', List.mapM_map]
    refine mapM_of_forall₂ ?_
    rw [columnsOf, List.forall₂_map_right_iff, List.forall₂_same]
    intro c hc
    refine (if_pos (h.typed row hrow c hc).1).trans ?_
    rw [List.map_append]
    rfl
  rw [readRow, hpush, hcount]
  simp only [bind, Except.bind, hbounds, List.length_append]
  rfl

def BatchOf (collation : Text → C) (spec : TableSpec) (rel : Relation ρ) (rows : List ρ)
    (batch : Batch) : Prop :=
  batch.columns = columnsOf spec rel rows ∧ batch.rows = rows.length ∧
    ∀ last, rows.getLast? = some last →
      CursorAt spec collation batch.lastKey (some (keyOf collation spec rel last))

end Keys

section Batches

variable {ρ C : Type} [LinearOrder C] (collation : Text → C)

/- A name in `ORDER BY` is that of an output column, if there is one. -/
def BatchQuery.output (q : BatchQuery) (name : String) : String :=
  ((q.select.find? fun c => c.name = name).map (·.selectExpr)).getD name

def BatchQuery.matching (q : BatchQuery) (rel : Relation ρ) (args : List SqlValue) : List ρ :=
  rel.rows.filter fun row =>
    (Truth.equal (rel.value "bundle_id" row) args[0]?).holds &&
      q.keyset.all fun (columns, placeholders) =>
        (rowGreater (weights collation rel columns row)
          (placeholders.map fun n => args[n - 1]?.bind (SqlValue.weight collation))).holds

def BatchQuery.answer (q : BatchQuery) (rel : Relation ρ) (args : List SqlValue) (limit : Nat) :
    List ρ :=
  ((q.matching collation rel args).insertionSort fun a b =>
    rowBefore (weights collation rel (q.orderBy.map q.output) a)
      (weights collation rel (q.orderBy.map q.output) b)).take
      limit

def readBatch (batchRows : Nat) (spec : TableSpec) (rel : Relation ρ) (bundleId : Int)
    (cursor : Option (List KeyBound)) : Except CatalogError Batch :=
  let query := buildBatchQuery spec cursor.isSome
  let args := .bigint bundleId :: (cursor.getD []).map KeyBound.value
  let table := (query.answer collation rel args batchRows).map (query.project rel)
  table.foldlM (readRow spec) ⟨spec.columns.map fun c => .empty c.pgType, none, 0⟩

/-- The row groups of the file and the number of rows; `none` when the fuel ends before the loop
does. -/
def exportBatches (batchRows : Nat) (spec : TableSpec) (rel : Relation ρ) (bundleId : Int) :
    Nat → Option (List KeyBound) → List (List ColumnData) → Nat →
      Except CatalogError (Option (List (List ColumnData) × Nat))
  | 0, _, _, _ => pure none
  | fuel + 1, cursor, groups, total => do
    let batch ← readBatch collation batchRows spec rel bundleId cursor
    if batch.rows = 0 then pure (some (groups, total))
    else if batch.rows < batchRows then pure (some (groups ++ [batch.columns], total + batch.rows))
    else
      exportBatches batchRows spec rel bundleId fuel batch.lastKey (groups ++ [batch.columns])
        (total + batch.rows)

def exportTable (batchRows : Nat) (spec : TableSpec) (rel : Relation ρ) (bundleId : Int) (fuel : Nat) :
    Except CatalogError (Option (List (List ColumnData) × Nat)) :=
  exportBatches collation batchRows spec rel bundleId fuel none [] 0

variable {collation} {spec : TableSpec} {rel : Relation ρ} {bundleId : Int} {row : ρ}

variable {c : ColumnSpec}

theorem output_key {resume : Bool} (hc : c ∈ spec.keyColumns) :
    (buildBatchQuery spec resume).output c.name = c.name := by
  obtain ⟨hmem, hkey⟩ := TableSpec.mem_keyColumns hc
  have hexpr := (of_decide_eq_true hkey).2.2
  rw [BatchQuery.output, buildBatchQuery]
  cases hfind : spec.columns.find? fun c' => c'.name = c.name with
  | none =>
    have hnone := List.find?_eq_none.mp hfind c hmem
    simp at hnone
  | some c' =>
    have hname := List.find?_some hfind
    have hsame : c' = c :=
      List.inj_on_of_nodup_map spec.names_distinct (List.mem_of_find?_eq_some hfind) hmem
      (of_decide_eq_true hname)
    rw [hsame, Option.map_some, Option.getD_some, hexpr]

theorem orderBy_output (resume : Bool) :
    (buildBatchQuery spec resume).orderBy.map (buildBatchQuery spec resume).output = spec.keyNames := by
  refine (List.map_congr_left fun name hname => ?_).trans (List.map_id _)
  obtain ⟨c, hc, rfl⟩ := List.mem_map.mp hname
  exact output_key hc

theorem placeholders_eq (bundle : SqlValue) (bounds : List SqlValue) :
    ((List.range bounds.length).map (· + 2)).map (fun n => (bundle :: bounds)[n - 1]?) =
      bounds.map some := by
  refine List.ext_getElem? fun i => ?_
  rw [List.map_map, List.getElem?_map, List.getElem?_map]
  by_cases hi : i < bounds.length
  · simp [List.getElem?_range hi, List.getElem?_eq_getElem hi]
  · simp [hi]

variable {cursor : Option (List KeyBound)} {after : Option (List (C ⊕ₗ Int))}

theorem matching_eq (h : Exportable spec rel bundleId) (hcursor : CursorAt spec collation cursor after) :
    (buildBatchQuery spec cursor.isSome).matching collation rel
        (.bigint bundleId :: (cursor.getD []).map KeyBound.value) =
      remaining (keyOf collation spec rel) (rel.ofBundle bundleId) after := by
  rw [BatchQuery.matching, remaining, Relation.ofBundle, List.filter_filter]
  refine List.filter_congr fun row hrow => ?_
  have hbundle : (Truth.equal (rel.value "bundle_id" row) (some (.bigint bundleId))).holds =
      decide (rel.value "bundle_id" row = some (.bigint bundleId)) := Truth.holds_equal_some
  rw [List.getElem?_cons_zero, hbundle, Bool.and_comm]
  by_cases hmine : rel.value "bundle_id" row = some (.bigint bundleId)
  · have hmem : row ∈ rel.ofBundle bundleId := List.mem_filter.mpr ⟨hrow, decide_eq_true hmine⟩
    congr 1
    cases hcursor with
    | start => rfl
    | @after bounds key hlength hbounds =>
      have hcount : spec.keyNames.length = (bounds.map KeyBound.value).length := by
        have hboth := congrArg List.length hbounds
        rw [List.length_map, List.length_map] at hboth
        rw [List.length_map, hboth, hlength]
      have hparams : ((List.range spec.keyNames.length).map (· + 2)).map (fun n =>
          (SqlValue.bigint bundleId :: bounds.map KeyBound.value)[n - 1]?.bind
            (SqlValue.weight collation)) =
            key.map some := by
        have hargs := congrArg (List.map (·.bind (SqlValue.weight collation)))
          (placeholders_eq (.bigint bundleId) (bounds.map KeyBound.value))
        rw [List.map_map, ← hcount] at hargs
        refine hargs.trans ?_
        rw [← hbounds, List.map_map, List.map_map]
        rfl
      simp only [buildBatchQuery, Option.isSome_some, if_true, Option.all_some, Option.getD_some,
        hparams,
        h.weights_eq hmem]
      rw [Bool.eq_iff_iff, rowGreater_some (by rw [hlength, h.length_keyOf hmem])]
      simp
  · simp [hmine]

theorem answer_eq (h : Exportable spec rel bundleId)
    (hcursor : CursorAt spec collation cursor after) (limit : Nat) :
    (buildBatchQuery spec cursor.isSome).answer collation rel
        (.bigint bundleId :: (cursor.getD []).map KeyBound.value) limit =
      page (keyOf collation spec rel) limit (rel.ofBundle bundleId) after := by
  rw [BatchQuery.answer, orderBy_output, matching_eq h hcursor, page, ordered]
  congr 1
  refine insertionSort_congr_of_mem fun a ha b hb => ?_
  have ha := (List.mem_filter.mp ha).1
  have hb := (List.mem_filter.mp hb).1
  rw [h.weights_eq ha, h.weights_eq hb]
  exact rowBefore_some (by rw [h.length_keyOf ha, h.length_keyOf hb])

theorem Exportable.readBatch_eq (h : Exportable spec rel bundleId)
    (hcursor : CursorAt spec collation cursor after) (batchRows : Nat) :
    ∃ batch, readBatch collation batchRows spec rel bundleId cursor = .ok batch ∧
      BatchOf collation spec rel
        (page (keyOf collation spec rel) batchRows (rel.ofBundle bundleId) after) batch := by
  have hmem : ∀ row ∈ page (keyOf collation spec rel) batchRows (rel.ofBundle bundleId) after,
      row ∈ rel.ofBundle bundleId := fun row hrow =>
    (List.mem_filter.mp (mem_ordered.mp (List.mem_of_mem_take hrow))).1
  rw [readBatch, answer_eq h hcursor, List.foldlM_map]
  generalize page (keyOf collation spec rel) batchRows (rel.ofBundle bundleId) after = rows at hmem
  refine foldlM_total (P := BatchOf collation spec rel) ⟨rfl, rfl, by simp⟩ ?_
  intro done row rest batch hrows hdone
  have hrow : row ∈ rel.ofBundle bundleId := hmem row (by simp [hrows])
  obtain ⟨bounds, hread, hbounds⟩ := h.readRow_eq hrow cursor.isSome hdone.1 hdone.2.1
  refine ⟨_, hread, rfl, rfl, fun last hlast => ?_⟩
  rw [List.getLast?_concat, Option.some.injEq] at hlast
  rw [← hlast]
  exact hbounds

theorem Exportable.exportBatches_eq (h : Exportable spec rel bundleId)
    (hinj : Function.Injective collation) {batchRows : Nat} (hbatch : 1 ≤ batchRows) {fuel : Nat}
    (hcursor : CursorAt spec collation cursor after)
    (hfuel : (remaining (keyOf collation spec rel) (rel.ofBundle bundleId) after).length < fuel)
    (groups : List (List ColumnData)) (total : Nat) :
    ∃ pages : List (List ρ),
      pages.flatten = ordered (keyOf collation spec rel)
        (remaining (keyOf collation spec rel) (rel.ofBundle bundleId) after) ∧
      exportBatches collation batchRows spec rel bundleId fuel cursor groups total =
        .ok (some (groups ++ pages.map (columnsOf spec rel), total + pages.flatten.length)) := by
  induction fuel generalizing cursor after groups total with
  | zero => omega
  | succ fuel ih =>
    obtain ⟨batch, hread, hcolumns, hcount, hlastKey⟩ := h.readBatch_eq hcursor batchRows
    have hlength : (page (keyOf collation spec rel) batchRows (rel.ofBundle bundleId) after).length =
        min batchRows (remaining (keyOf collation spec rel) (rel.ofBundle bundleId) after).length := by
      rw [page, List.length_take, ordered_perm.length_eq]
    rw [exportBatches, hread]
    simp only [bind, Except.bind]
    by_cases hshort : batch.rows < batchRows
    · -- A batch that is not full holds all that remained.
      have hall : page (keyOf collation spec rel) batchRows (rel.ofBundle bundleId) after =
          ordered (keyOf collation spec rel)
            (remaining (keyOf collation spec rel) (rel.ofBundle bundleId) after) :=
        List.take_of_length_le (by rw [ordered_perm.length_eq]; omega)
      by_cases hempty : batch.rows = 0
      · have hnil : page (keyOf collation spec rel) batchRows (rel.ofBundle bundleId) after = [] :=
          List.length_eq_zero_iff.mp (by omega)
        refine ⟨[], by rw [← hall, hnil]; rfl, ?_⟩
        rw [if_pos hempty, List.map_nil, List.append_nil]
        rfl
      · refine ⟨[page (keyOf collation spec rel) batchRows (rel.ofBundle bundleId) after],
          by simpa using hall, ?_⟩
        rw [if_neg hempty, if_pos hshort, hcolumns, hcount]
        simp
    · have hne : page (keyOf collation spec rel) batchRows (rel.ofBundle bundleId) after ≠ [] := by
        intro hnil
        rw [hnil, List.length_nil] at hcount
        omega
      have hlast := List.getLast?_eq_some_getLast hne
      have heq := ordered_remaining_eq (h.keys_nodup hinj) hlast
      have hsplit := congrArg List.length heq
      rw [List.length_append, ordered_perm.length_eq, ordered_perm.length_eq] at hsplit
      obtain ⟨pages, hpages, hrest⟩ :=
        ih (hlastKey _ hlast) (by omega) (groups ++ [batch.columns]) (total + batch.rows)
      refine ⟨page (keyOf collation spec rel) batchRows (rel.ofBundle bundleId) after :: pages, ?_, ?_⟩
      · rw [List.flatten_cons, hpages, heq]
      · rw [if_neg (by omega), if_neg hshort, hrest, hcolumns, hcount]
        simp [Nat.add_assoc]

theorem columnsOf_flatMap {j : Nat} (hc : spec.columns[j]? = some c) (pages : List (List ρ)) :
    (pages.map (columnsOf spec rel)).flatMap (fun group => (group[j]?.map ColumnData.values).getD []) =
      pages.flatten.map (rel.value c.selectExpr) := by
  induction pages with
  | nil => rfl
  | cons rows pages ih =>
    rw [List.map_cons, List.flatMap_cons, ih, List.flatten_cons, List.map_append]
    simp [columnsOf, hc]

/-- The columns of the file, row group after row group, hold the rows of the bundle, each once and
in the order of the keys. -/
theorem export_batches_tile (collation : Text → C) (hinj : Function.Injective collation)
    (spec : TableSpec)
    (rel : Relation ρ) (bundleId : Int) (h : Exportable spec rel bundleId) (batchRows : Nat)
    (hbatch : 1 ≤ batchRows) :
    ∃ written : List ρ, written.Perm (rel.ofBundle bundleId) ∧
      written.Pairwise (fun a b => keyOf collation spec rel a < keyOf collation spec rel b) ∧
      ∀ fuel, (rel.ofBundle bundleId).length < fuel →
        ∃ groups, exportTable collation batchRows spec rel bundleId fuel = .ok
          (some (groups, written.length)) ∧
          ∀ (j : Nat) (c : ColumnSpec), spec.columns[j]? = some c →
            groups.flatMap (fun group => (group[j]?.map ColumnData.values).getD []) =
              written.map (rel.value c.selectExpr) := by
  refine ⟨ordered (keyOf collation spec rel) (rel.ofBundle bundleId), ordered_perm,
    ordered_strict (h.keys_nodup hinj), fun fuel hfuel => ?_⟩
  obtain ⟨pages, hpages, hexport⟩ := h.exportBatches_eq hinj hbatch (.start)
    (show (remaining _ (rel.ofBundle bundleId) none).length < fuel by rwa [remaining_none]) [] 0
  rw [remaining_none] at hpages
  refine ⟨pages.map (columnsOf spec rel), ?_, fun j c hc => ?_⟩
  · rw [exportTable, hexport, hpages, List.nil_append, Nat.zero_add]
  · rw [columnsOf_flatMap hc, hpages]

end Batches

def sampleLinks : Relation (Int × Text × Int) where
  rows := [(1, ['b'], 0), (1, ['a'], 1), (2, ['a'], 0), (1, ['a'], 0)]
  value name row :=
    if name = "bundle_id" then some (.bigint row.1)
    else if name = "source_id" then some (.text row.2.1)
    else if name = "ordinal" then some (.integer row.2.2)
    else if name = "link_kind" then some (.text "concept")
    else if name = "resolved" then some (.boolean true)
    else if name = "is_external" then some (.boolean false)
    else none

def codePoints (t : Text) : List Nat := t.map Char.toNat

theorem codePoints_injective : Function.Injective codePoints :=
  List.map_injective_iff.mpr fun _ _ h => Char.toNat_inj.mp h

theorem export_batches_tile_links :
    ∃ written : List (Int × Text × Int), written.Perm [(1, ['b'], 0), (1, ['a'], 1), (1, ['a'], 0)] ∧
      written.Pairwise (fun a b =>
        keyOf codePoints linksSpec sampleLinks a < keyOf codePoints linksSpec sampleLinks b) ∧
      ∃ groups, exportTable codePoints 2 linksSpec sampleLinks 1 4 = .ok
        (some (groups, written.length)) := by
  obtain ⟨written, hperm, hordered, hfile⟩ :=
    export_batches_tile codePoints codePoints_injective linksSpec sampleLinks 1
    ⟨by decide +kernel, by decide +kernel⟩ 2 (by decide)
  obtain ⟨groups, hgroups, -⟩ := hfile 4 (by decide +kernel)
  exact ⟨written, hperm, hordered, groups, hgroups⟩

end Pgokf.Catalog
