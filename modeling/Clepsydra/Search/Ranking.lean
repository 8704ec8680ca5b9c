import Clepsydra.Library.Relational
import Clepsydra.Search.Support

/-!
Owns: the tables a search statement reads, its rows, and the shortened statement for plain texts.

Proves: on plain texts both are refused with the same error, or return the same rows.
-/

namespace Clepsydra.Search

open Library Library.Fallible Library.Relational Library.Sqlite

/-! ### Tables -/

structure PageRow where
  id : String
  path : String
  title : Option String
  kind : String
  project : Option String
  updatedAt : Option String

structure FtsRow where
  pageId : String
  path : String
  title : String
  body : String

/-- `MATCH`, `bm25` and `snippet`. A rank depends on the whole table. -/
structure FtsEngine where
  isMatch : String → FtsRow → Bool
  bm25 : List FtsRow → String → FtsRow → ℚ
  snippet : String → FtsRow → String

structure SearchIndex where
  pages : List PageRow
  tags : List (String × String)
  pageProperties : List (String × String)
  pagesFts : List FtsRow
  distinctIds : (pages.map PageRow.id).Nodup

/-- A row of `text_n`. -/
structure TextRow where
  pageId : String
  rank : ℚ

/-- A row of `positive_matches`, `positive_ranks` or `best_positive`. -/
structure TextRank where
  pageId : String
  rank : ℚ
  ordinal : Nat

structure SearchRow where
  pageId : String
  path : String
  title : Option String
  snippetLeaf : Option Nat
  snippet : String
  rank : ℚ
deriving DecidableEq

/-! ### Statements on an index -/

section Statements

variable (engine : FtsEngine) (index : SearchIndex)

/-- What the `WHERE` clause of a statement reads of a page. -/
def SearchIndex.content : IndexContent PageRow where
  kind := PageRow.kind
  project := PageRow.project
  tags page := (index.tags.filter fun row => row.1 == page.id).map Prod.snd
  propertyKeys page := (index.pageProperties.filter fun row => row.1 == page.id).map Prod.snd
  ftsMatches fts page :=
    index.pagesFts.any fun row => row.pageId == page.id && engine.isMatch fts row

/-- `SELECT page_id, bm25(pages_fts) FROM pages_fts WHERE pages_fts MATCH ?n`. -/
def textTable (parameters : List Value) (parameter : Nat) : List TextRow :=
  match boundParameter parameters parameter with
  | .text fts =>
    (index.pagesFts.filter (engine.isMatch fts)).map fun row =>
      { pageId := row.pageId, rank := engine.bm25 index.pagesFts fts row }
  | _ => []

def snippetSelect (parameters : List Value) (parameter : Nat) (pageId : String) : Option String :=
  match boundParameter parameters parameter with
  | .text fts =>
    (index.pagesFts.find? fun row => row.pageId == pageId && engine.isMatch fts row).map
      (engine.snippet fts)
  | _ => none

/-- `COALESCE(CASE ordinal WHEN … ELSE '' END, '')`; each text has its ordinal and parameter. -/
def snippetOf (parameters : List Value) (texts : List (Nat × Nat)) (pageId : String)
    (ordinal : Option Nat) : String :=
  match texts.find? fun text => some text.1 == ordinal with
  | some (_, parameter) => (snippetSelect engine index parameters parameter pageId).getD ""
  | none => ""

def limitRows {α : Type} (limit : Value) (rows : List α) : List α :=
  match limit with
  | .integer count => if count < 0 then rows else rows.take count.toNat
  | _ => rows

/-- `ORDER BY rank ASC, ordinal ASC`. -/
def byRankAndOrdinal : List (OrderTerm TextRank (Nat ×ₗ ℚ ×ₗ String)) :=
  [ { value row := (Value.real row.rank).place, descending := false },
    { value row := (Value.integer row.ordinal).place, descending := false } ]

namespace CompiledQuery

/-- The rows of `text_n` of a positive text, on the pages that meet its support. -/
def leafMatches (query : CompiledQuery) (leaf : TextLeaf) : List TextRank :=
  let joined := join (fun row page => page.id == row.pageId)
    (textTable engine index query.parameters leaf.parameter) index.pages
  let supported := joined.filter fun (_, page) =>
    leaf.support.any fun support => query.eval (index.content engine) page support == some true
  supported.map fun (row, _) => { pageId := row.pageId, rank := row.rank, ordinal := leaf.ordinal }

def positiveMatches (query : CompiledQuery) : List TextRank :=
  (query.textLeaves.filter TextLeaf.positive).flatMap (query.leafMatches engine index)

def bestPositive (query : CompiledQuery) : List TextRank :=
  numberedOne (rowNumbers TextRank.pageId byRankAndOrdinal (query.positiveMatches engine index))

def pageOrder : List (OrderTerm (PageRow × Option TextRank) (Nat ×ₗ ℚ ×ₗ String)) :=
  [ { value row := (Value.integer (if row.2.isSome then 1 else 0)).place, descending := true },
    { value row := (row.2.elim Value.null fun best => .real best.rank).place,
      descending := false },
    { value row :=
        (Value.integer (if row.2.isNone && row.1.updatedAt.isNone then 1 else 0)).place,
      descending := false },
    { value row := (if row.2.isNone then Value.ofText row.1.updatedAt else .null).place,
      descending := true },
    { value row := (Value.text (noCase row.1.path)).place, descending := false },
    { value row := (Value.text row.1.id).place, descending := false } ]

def resultRow (query : CompiledQuery) (row : PageRow × Option TextRank) : SearchRow :=
  let positive := query.textLeaves.filter TextLeaf.positive
  { pageId := row.1.id, path := row.1.path, title := row.1.title,
    snippetLeaf := row.2.map TextRank.ordinal,
    snippet := snippetOf engine index query.parameters
      (positive.map fun leaf => (leaf.ordinal, leaf.parameter)) row.1.id
      (row.2.map TextRank.ordinal),
    rank := row.2.elim 0 TextRank.rank }

def rows (query : CompiledQuery) : List SearchRow :=
  let joined := leftJoin (fun page best => best.pageId == page.id) index.pages
    (query.bestPositive engine index)
  let selected := joined.filter fun (page, _) => query.selects (index.content engine) page
  let limited := limitRows (boundParameter query.parameters query.limitParameter)
    (orderBy pageOrder selected)
  limited.map (query.resultRow engine index)

end CompiledQuery

/-! ### The shortened statement -/

def ordinaryPositiveTextLeaves : SearchExpr → Option (List (String × TextMode × SearchSpan))
  | .text value mode span => some [(value, mode, span)]
  | .all children _ =>
    children.mapM fun
      | .text value mode span => some (value, mode, span)
      | _ => none
  | .field _ _ _ | .any _ _ | .not _ _ => none

structure OrdinaryQuery where
  leafCount : Nat
  parameters : List Value
  limitParameter : Nat

def compileOrdinaryText (isAlphanumeric : Char → Bool) (input : List Char)
    (leaves : List (String × TextMode × SearchSpan)) (limit : Nat) :
    Except SearchQueryError OrdinaryQuery := do
  let texts ← leaves.mapM fun (value, mode, span) =>
    ftsExpression isAlphanumeric input value mode span
  let parameters := texts.map Value.text ++ [.integer (min limit (2 ^ 63 - 1))]
  pure { leafCount := leaves.length, parameters, limitParameter := parameters.length }

/-- A row of `candidate_matches` and of `ranked`. -/
structure CandidateRow where
  pageId : String
  path : String
  title : Option String
  id : String
  rank : ℚ
  ordinal : Nat

namespace OrdinaryQuery

/-- `text_n`; the parameter of a text comes one after its ordinal. -/
def text (query : OrdinaryQuery) (ordinal : Nat) : List TextRow :=
  if ordinal < query.leafCount then textTable engine index query.parameters (ordinal + 1) else []

/-- The pages of `text_0`, joined with every other text. -/
def required (query : OrdinaryQuery) : List String :=
  let joinText (pageIds : List String) (ordinal : Nat) : List String :=
    (join (fun pageId row => row.pageId == pageId) pageIds (query.text engine index ordinal)).map
      Prod.fst
  (List.range' 1 (query.leafCount - 1)).foldl joinText
    ((query.text engine index 0).map TextRow.pageId)

def positiveRanks (query : OrdinaryQuery) : List TextRank :=
  (List.range query.leafCount).flatMap fun ordinal =>
    (query.text engine index ordinal).map fun row =>
      { pageId := row.pageId, rank := row.rank, ordinal }

def candidateMatches (query : OrdinaryQuery) : List CandidateRow :=
  let ranked := join (fun pageId row => row.pageId == pageId) (query.required engine index)
    (query.positiveRanks engine index)
  let joined := join (fun row page => page.id == row.1) ranked index.pages
  joined.map fun ((pageId, row), page) =>
    { pageId, path := page.path, title := page.title, id := page.id, rank := row.rank,
      ordinal := row.ordinal }

/-- `ORDER BY positive_ranks.rank ASC, positive_ranks.ordinal ASC`. -/
def candidateOrder : List (OrderTerm CandidateRow (Nat ×ₗ ℚ ×ₗ String)) :=
  [ { value row := (Value.real row.rank).place, descending := false },
    { value row := (Value.integer row.ordinal).place, descending := false } ]

/-- `ORDER BY rank ASC, path COLLATE NOCASE ASC, id ASC`. -/
def rankedOrder : List (OrderTerm CandidateRow (Nat ×ₗ ℚ ×ₗ String)) :=
  [ { value row := (Value.real row.rank).place, descending := false },
    { value row := (Value.text (noCase row.path)).place, descending := false },
    { value row := (Value.text row.id).place, descending := false } ]

def ranked (query : OrdinaryQuery) : List CandidateRow :=
  limitRows (boundParameter query.parameters query.limitParameter) (orderBy rankedOrder
      (numberedOne (rowNumbers CandidateRow.pageId candidateOrder
        (query.candidateMatches engine index))))

def resultRow (query : OrdinaryQuery) (row : CandidateRow) : SearchRow :=
  { pageId := row.pageId, path := row.path, title := row.title, snippetLeaf := some row.ordinal,
    snippet := snippetOf engine index query.parameters
      ((List.range query.leafCount).map fun ordinal => (ordinal, ordinal + 1)) row.pageId
      (some row.ordinal),
    rank := row.rank }

def rows (query : OrdinaryQuery) : List SearchRow :=
  (orderBy rankedOrder (query.ranked engine index)).map (query.resultRow engine index)

end OrdinaryQuery

/-- `compile_query`: the statement that is sent. -/
def compileQuery (isAlphanumeric : Char → Bool) (input : List Char) (expression : SearchExpr)
    (limit : Nat) : Except SearchQueryError (OrdinaryQuery ⊕ CompiledQuery) :=
  match ordinaryPositiveTextLeaves expression with
  | some leaves => (compileOrdinaryText isAlphanumeric input leaves limit).map .inl
  | none => (compile isAlphanumeric input expression limit).map .inr

/-- The rows `execute` returns. -/
def execute (isAlphanumeric : Char → Bool) (input : List Char) (expression : SearchExpr)
    (limit : Nat) : Except SearchQueryError (List SearchRow) :=
  (compileQuery isAlphanumeric input expression limit).map
    (Sum.elim (OrdinaryQuery.rows engine index) (CompiledQuery.rows engine index))

end Statements

end Clepsydra.Search
