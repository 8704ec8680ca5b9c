import Clepsydra.Bases.Columns
import Clepsydra.Bases.Negation

/-!
Owns: the evaluation of a query on an index, flat and in groups: the joins, the header query of the
groups, the rows that are fetched for each, and the totals.

Proves: the groups partition the flat result, which shows the pages on which the filter is true.
-/

namespace Clepsydra.Bases

open Library Library.Relational Library.Sqlite Vault List Function Option

abbrev Place := Nat ×ₗ ℚ ×ₗ String

/-! ### Joins -/

namespace Index

variable (index : Index)

/-- `page_id = p.id AND key = ? AND ord = 0`. -/
def isFirstProperty (key : String) (page : StoredPage) (property : StoredProperty) : Bool :=
  (property.row.pageId, property.row.key, property.ord) = (page.row.id, key, 0)

/-- One `LEFT JOIN page_properties` for each key. -/
def joinProperties {α : Type} (page : α → StoredPage) (keys : List String) (rows : List α) :
    List (α × List (Option StoredProperty)) :=
  keys.foldl (fun joined key =>
    (leftJoin (fun row => isFirstProperty key (page row.1)) joined index.properties.rows).map
      fun row => (row.1.1, row.1.2 ++ [row.2]))
    (rows.map fun row => (row, []))

/-- `ORDER BY span_start DESC, rowid`. -/
def linkOrder : List (OrderTerm StoredLink Int) :=
  [⟨fun link => link.spanStart, true⟩, ⟨fun link => link.rowid, false⟩]

def linksFrom (key : String) (page : StoredPage) : List StoredLink :=
  index.links.rows.filter fun link =>
    link.row.sourceId == page.row.id && link.row.sourceField == some key

def firstLink (key : String) (page : StoredPage) : Option StoredLink :=
  (orderBy linkOrder (index.linksFrom key page)).head?

end Index

def propertyCell (column : Column) (property : Option StoredProperty) : Value :=
  (property.bind fun property => property.row.cells column).getD .null

/-- A row of a grouped query before its `WHERE`: the page, `gkey`, and the page `grp_target`. -/
structure GroupedRow where
  page : StoredPage
  key : Value
  target : Option StoredPage

/-- `COALESCE(grp_target.canonical_name, grp.target_canonical)`. -/
def relationKey (link : Option StoredLink) (target : Option StoredPage) : Value :=
  match target with
  | some page => .text page.canonicalName
  | none => Value.ofText (link.bind fun link => link.row.targetCanonical)

/-- The joins of `GroupColumn::sql`. -/
def GroupColumn.join (index : Index) (pages : List StoredPage) : GroupColumn → List GroupedRow
  | .system column => pages.map fun page => ⟨page, page.row.scope column, none⟩
  | .property key column =>
    (leftJoin (Index.isFirstProperty key) pages index.properties.rows).map fun row =>
      ⟨row.1, propertyCell column row.2, none⟩
  | .relation key =>
    let linked := leftJoin
      (fun page link => (index.firstLink key page).map (·.rowid) == some link.rowid)
      pages index.links.rows
    (leftJoin (fun row target => (row.2.bind fun link => link.row.targetId) == some target.row.id)
      linked index.pages.rows).map fun row => ⟨row.1.1, relationKey row.1.2 row.2, row.2⟩

/-! ### Order -/

/-- `value IS NULL, value dir`. -/
def nullsLast {α : Type} (value : α → Value) (dir : SortDir) : List (OrderTerm α Place) :=
  [⟨fun row => (boolValue (value row == .null)).place, false⟩,
    ⟨fun row => (value row).place, dir == .desc⟩]

def sortJoins (order : List SortTerm) : List String := order.filterMap fun
    | .property key _ _ => some key
    | _ => none

/-- The terms of `ORDER BY` on the joined rows, and the path last. -/
def orderTerms (index : Index) (joined : Nat) :
    List SortTerm → List (OrderTerm (StoredPage × List (Option StoredProperty)) Place)
  | [] => [⟨fun row => (Value.text row.1.row.path).place, false⟩]
  | .column column dir :: rest =>
    nullsLast (fun row => row.1.row.scope column) dir ++ orderTerms index joined rest
  | .property _ column dir :: rest =>
    nullsLast (fun row => propertyCell column (row.2[joined]?).join) dir
      ++ orderTerms index (joined + 1) rest
  | .relation key dir :: rest =>
    ⟨fun row => (Value.ofText
        ((index.firstLink key row.1).bind fun link => link.row.targetCanonical)).place,
      dir == .desc⟩ :: orderTerms index joined rest

/-! ### Rows -/

structure QueryRow where
  id : String
  path : String
  title : Option String
  kind : String
  project : Option String
  color : Option RowColor
  columns : ExtraMap JsonValue

/-- `group_predicate`. -/
def inGroup : Option (GroupColumn × Option Value) → GroupedRow → Bool
  | none, _ => true
  | some (_, some value), row => compareValues .eq row.key value == some true
  | some (_, none), row => row.key == .null

def groupJoin (index : Index) : Option (GroupColumn × Option Value) → List GroupedRow
  | none => index.pages.rows.map fun page => ⟨page, .null, none⟩
  | some (column, _) => column.join index index.pages.rows

/-- `LIMIT` and `OFFSET`. -/
def windowOf {α : Type} (limit : Option Nat) (offset : Nat) (rows : List α) : List α :=
  match limit with
  | some limit => (rows.drop offset).take limit
  | none => rows.drop offset

section Evaluation

variable (texts : JsonTexts) (events : String → List MarkdownEvent) (unicode : Unicode)
  (index : Index) (ctx : QueryContext)

def fetchPages (prepared : PreparedQuery) (group : Option (GroupColumn × Option Value)) :
    List StoredPage :=
  let joined := index.joinProperties (fun row : GroupedRow => row.page) (sortJoins prepared.order)
    (groupJoin index group)
  let selected := joined.filter fun row =>
    prepared.condition.selects index.tables row.1.page.row && inGroup group row.1
  let terms := (orderTerms index 0 prepared.order).map
    (OrderTerm.comap fun row : GroupedRow × List (Option StoredProperty) => (row.1.page, row.2))
  (orderBy terms selected).map fun row => row.1.page

def rowColor (spec : QuerySpec) (prepared : PreparedQuery) (page : StoredPage) : Option RowColor :=
  (prepared.colors.findIdx? fun rule => rule.selects index.tables page.row).bind fun rule =>
    (spec.colorRules[rule]?).map (·.color)

def queryRow (spec : QuerySpec) (prepared : PreparedQuery) (plan : List (String × ColumnSource))
    (page : StoredPage) : QueryRow where
  id := page.row.id
  path := page.row.path
  title := page.row.title
  kind := page.row.kind
  project := page.row.project
  color := rowColor index spec prepared page
  columns := showColumns texts events index plan page

/-- `fetch_rows`. -/
def fetchRows (spec : QuerySpec) (prepared : PreparedQuery)
    (group : Option (GroupColumn × Option Value)) (limit : Option Nat) (offset : Nat) :
    Except QueryError (List QueryRow) := do
  let plan ← planColumns ctx spec.columns
  .ok ((windowOf limit offset (fetchPages index prepared group)).map
    (queryRow texts events index spec prepared plan))

/-! ### Evaluation -/

def inQuery {α : Type} (result : Except QueryError α) : Except EvaluationError α :=
  result.mapError .query

def planAggregate (aggregate : AggregateFn × Option String) :
    Except EvaluationError (List String) :=
  if aggregate.1.requiresField then
    match aggregate.2 with
    | none => .error (.invalidAggregate aggregate.1)
    | some field => do
        match ← inQuery (resolveField field ctx) with
        | .sys .tags | .sys .aliases => .error (.invalidAggregate aggregate.1)
        | resolved =>
          let (type, joins) := match resolved with
            | .prop key type => (type, [key])
            | .sys sys => (sys.propertyType, [])
          if aggregate.1.isFold ∧ ¬(type = .number ∨ type = .date ∨ type = .datetime) then
            .error (.invalidAggregate aggregate.1)
          else .ok joins
  else .ok []

/-- `plan_aggregates`, by its joins. -/
def planAggregates (aggregates : List (AggregateFn × Option String)) :
    Except EvaluationError (List String) :=
  (aggregates.mapM (planAggregate ctx)).map List.flatten

def QuerySpec.plannedAggregates (spec : QuerySpec) : List (AggregateFn × Option String) :=
  spec.aggregates.map fun aggregate => (aggregate.function, aggregate.field)

def QuerySpec.plannedMetrics (spec : QuerySpec) : List (AggregateFn × Option String) :=
  spec.metrics.map fun metric => (metric.function, metric.field)

/-- `COUNT(*)` of the header query of a flat result. -/
def wholeViewTotal (prepared : PreparedQuery) (joins : List String) : Nat :=
  ((index.joinProperties id joins index.pages.rows).filter fun row =>
    prepared.condition.selects index.tables row.1.row).length

def unfilteredTotal (spec : QuerySpec) : Except QueryError (Option Nat) :=
  if spec.searched.isNone then .ok none
  else do
    let filter ← compileOptional unicode ctx spec.filter
    .ok (some ((index.pages.rows.filter fun page => filter.selects index.tables page.row).length))

structure FlatResult where
  rows : List QueryRow
  total : Nat
  unfilteredTotal : Option Nat

def evaluateFlat (spec : QuerySpec) : Except EvaluationError FlatResult := do
  let prepared ← inQuery (prepare unicode ctx spec)
  let joins ← planAggregates ctx (spec.plannedAggregates ++ spec.plannedMetrics)
  let rows ← inQuery (fetchRows texts events index ctx spec prepared none spec.limit spec.offset)
  let unfiltered ← inQuery (unfilteredTotal unicode index ctx spec)
  .ok ⟨rows, wholeViewTotal index prepared joins, unfiltered⟩

structure GroupHeader where
  key : Option Value
  keyLabel : Option String
  keyPath : Option String
  total : Nat

/-- The group of a header: its rows are `GROUP BY gkey ORDER BY gkey IS NULL, gkey ASC`. -/
def headerGroups (prepared : PreparedQuery) (column : GroupColumn) (joins : List String) :
    List (List (GroupedRow × List (Option StoredProperty))) :=
  let joined := index.joinProperties (fun row : GroupedRow => row.page) joins
    (column.join index index.pages.rows)
  let selected := joined.filter fun row => prepared.condition.selects index.tables row.1.page.row
  orderBy (nullsLast (fun group => ((group.head?).map fun row => row.1.key).getD .null) .asc)
    (groupBy (fun row => row.1.key.place) selected)

def groupHeader (group : List (GroupedRow × List (Option StoredProperty))) : GroupHeader where
  key := ((group.head?).map fun row => row.1.key).filter fun key => key ≠ .null
  keyLabel := (group.filterMap fun row => row.1.target.bind fun page => page.row.title).min?
  keyPath := (group.filterMap fun row => row.1.target.map fun page => page.row.path).min?
  total := group.length

/-- `GroupResult`, without its aggregates. -/
structure GroupResult where
  key : Json
  keyLabel : Option String
  keyPath : Option String
  total : Nat
  rows : List QueryRow

/-- `sql_value_to_json`; `showDouble` prints a double. -/
def sqlValueToJson (showDouble : ℚ → String) : Value → Json
  | .null => .null
  | .integer value => .number (.integer value)
  | .real value => .number (.float value (showDouble value))
  | .text text => .string text

structure GroupedResult where
  groups : List GroupResult
  unfilteredTotal : Option Nat

def defaultGroupRowLimit : Nat := 50

def GroupRowLimit.rows : GroupRowLimit → Option Nat
  | .default => some defaultGroupRowLimit
  | .unlimited => none
  | .limit count => some count

def evaluateGrouped (showDouble : ℚ → String) (spec : QuerySpec) (key : String) :
    Except EvaluationError GroupedResult := do
  let column ← groupColumn ctx key
  let prepared ← inQuery (prepare unicode ctx spec)
  let joins ← planAggregates ctx spec.plannedAggregates
  let _ ← planAggregates ctx spec.plannedMetrics
  let groups ← ((headerGroups index prepared column joins).map groupHeader).mapM fun header => do
    let rows ← inQuery (fetchRows texts events index ctx spec prepared (some (column, header.key))
      spec.groupRowLimit.rows 0)
    .ok { key := (header.key.map (sqlValueToJson showDouble)).getD .null
          keyLabel := header.keyLabel
          keyPath := header.keyPath
          total := header.total
          rows : GroupResult }
  let unfiltered ← inQuery (unfilteredTotal unicode index ctx spec)
  .ok ⟨groups, unfiltered⟩

end Evaluation

/-! ### Joins find one row at most -/

section Joins

variable {index : Index}

def Index.firstProperty (index : Index) (key : String) (page : StoredPage) :
    Option StoredProperty :=
  index.properties.rows.find? (Index.isFirstProperty key page)

theorem Index.leftJoin_firstProperty {α : Type} (page : α → StoredPage) (key : String)
    (rows : List α) :
    leftJoin (fun row => Index.isFirstProperty key (page row)) rows index.properties.rows
      = rows.map fun row => (row, index.firstProperty key (page row)) :=
  leftJoin_eq_map fun row _ =>
    length_filter_key_le_one index.properties.distinct ((page row).row.id, key, 0)

theorem Index.joinProperties_eq {α : Type} (page : α → StoredPage) (keys : List String)
    (rows : List α) :
    index.joinProperties page keys rows
      = rows.map fun row => (row, keys.map fun key => index.firstProperty key (page row)) := by
  unfold Index.joinProperties
  induction keys using List.reverseRecOn with
  | nil => rfl
  | append_singleton keys key ih =>
    rw [foldl_append, foldl_cons, foldl_nil, ih,
      Index.leftJoin_firstProperty (fun row : α × List (Option StoredProperty) => page row.1),
      List.map_map, List.map_map]
    simp only [comp_def, map_append, map_cons, map_nil]

def GroupColumn.row (index : Index) (page : StoredPage) : GroupColumn → GroupedRow
  | .system column => ⟨page, page.row.scope column, none⟩
  | .property key column => ⟨page, propertyCell column (index.firstProperty key page), none⟩
  | .relation key =>
    let link := index.links.rows.find? fun link =>
      (index.firstLink key page).map (·.rowid) == some link.rowid
    let target := index.pages.rows.find? fun target =>
      (link.bind fun link => link.row.targetId) == some target.row.id
    ⟨page, relationKey link target, target⟩

theorem length_filter_some_le_one {α ι : Type} [DecidableEq ι] {key : α → ι} {rows : List α}
    (distinct : (rows.map key).Nodup) (wanted : Option ι) :
    (rows.filter fun row => wanted == some (key row)).length ≤ 1 := by
  cases wanted with
  | none => simp
  | some wanted =>
    have few := length_filter_key_le_one distinct wanted
    have same : (fun row => some wanted == some (key row)) = fun row => key row == wanted := by
      funext row
      rw [some_beq_some, Bool.beq_comm]
    rwa [same]

theorem GroupColumn.join_eq (column : GroupColumn) (pages : List StoredPage) :
    column.join index pages = pages.map fun page => column.row index page := by
  cases column with
  | system column => rfl
  | property key column =>
    show (leftJoin _ _ _).map _ = _
    rw [Index.leftJoin_firstProperty (fun page : StoredPage => page), List.map_map]
    rfl
  | relation key =>
    dsimp only [GroupColumn.join]
    rw [leftJoin_eq_map fun page _ => length_filter_some_le_one index.links.distinct _,
      leftJoin_eq_map fun row _ => length_filter_some_le_one index.pages.distinct _, List.map_map,
      List.map_map]
    rfl

end Joins

/-! ### The order of pages -/

section Pages

variable {index : Index} {prepared : PreparedQuery}

/-- The terms of `ORDER BY`, on the pages. -/
def pageTerms (index : Index) (order : List SortTerm) : List (OrderTerm StoredPage Place) :=
  (orderTerms index 0 order).map (OrderTerm.comap fun page =>
    (page, (sortJoins order).map fun key => index.firstProperty key page))

theorem path_mem_orderTerms (joined : Nat) (order : List SortTerm) :
    (⟨fun row => (Value.text row.1.row.path).place, false⟩ : OrderTerm _ Place)
      ∈ orderTerms index joined order := by
  induction order generalizing joined with
  | nil => exact mem_singleton_self _
  | cons term rest ih =>
    cases term with
    | column column dir => exact mem_append_right _ (ih joined)
    | property key column dir => exact mem_append_right _ (ih (joined + 1))
    | relation key dir => exact mem_cons_of_mem _ (ih joined)

theorem pageTerms_distinguish (order : List SortTerm) :
    ∀ first ∈ index.pages.rows, ∀ second ∈ index.pages.rows,
      precedes (pageTerms index order) first second = true →
      precedes (pageTerms index order) second first = true → first = second := by
  intro first among second alsoAmong before after
  have last := List.mem_map_of_mem (f := OrderTerm.comap fun page =>
    (page, (sortJoins order).map fun key => index.firstProperty key page))
    (@path_mem_orderTerms index 0 order)
  have samePlace := value_eq_of_precedes before after _ last
  have samePath : first.row.path = second.row.path := by
    simpa [OrderTerm.comap, Value.place] using samePlace
  exact inj_on_of_nodup_map index.paths_distinct among alsoAmong samePath

def groupRow (index : Index) : Option (GroupColumn × Option Value) → StoredPage → GroupedRow
  | none, page => ⟨page, .null, none⟩
  | some (column, _), page => column.row index page

@[simp] theorem GroupColumn.row_page (column : GroupColumn) (page : StoredPage) :
    (column.row index page).page = page := by
  cases column <;> rfl

@[simp] theorem groupRow_page (group : Option (GroupColumn × Option Value)) (page : StoredPage) :
    (groupRow index group page).page = page := by
  cases group with
  | none => rfl
  | some group => exact group.1.row_page page

theorem groupJoin_eq (group : Option (GroupColumn × Option Value)) :
    groupJoin index group = index.pages.rows.map (groupRow index group) := by
  cases group with
  | none => rfl
  | some group => exact group.1.join_eq index.pages.rows

def matchingPages (index : Index) (prepared : PreparedQuery) : List StoredPage :=
  index.pages.rows.filter fun page => prepared.condition.selects index.tables page.row

theorem fetchPages_eq (group : Option (GroupColumn × Option Value)) :
    fetchPages index prepared group
      = orderBy (pageTerms index prepared.order) ((matchingPages index prepared).filter fun page =>
          inGroup group (groupRow index group page)) := by
  have agree : ∀ first second : StoredPage, precedes (pageTerms index prepared.order) first second
        = precedes ((orderTerms index 0 prepared.order).map
            (OrderTerm.comap fun row : GroupedRow × List (Option StoredProperty) =>
              (row.1.page, row.2)))
          (groupRow index group first, (sortJoins prepared.order).map fun key =>
            index.firstProperty key (groupRow index group first).page)
          (groupRow index group second, (sortJoins prepared.order).map fun key =>
            index.firstProperty key (groupRow index group second).page) := by
    intro first second
    simp only [pageTerms, precedes_comap, groupRow_page]
  unfold fetchPages matchingPages
  dsimp only
  rw [groupJoin_eq, Index.joinProperties_eq, List.map_map, List.filter_map, List.filter_filter,
    comp_def, ← map_orderBy fun first _ second _ => agree first second, List.map_map]
  simp only [comp_def, groupRow_page, List.map_id', Bool.and_comm]

theorem fetchPages_group (group : GroupColumn × Option Value) :
    fetchPages index prepared (some group) = (fetchPages index prepared none).filter fun page =>
          inGroup (some group) (group.1.row index page) := by
  have distinguished : ∀ first ∈ matchingPages index prepared,
      ∀ second ∈ matchingPages index prepared,
      precedes (pageTerms index prepared.order) first second = true →
      precedes (pageTerms index prepared.order) second first = true → first = second :=
    fun first among second alsoAmong => pageTerms_distinguish prepared.order
      first (mem_of_mem_filter among) second (mem_of_mem_filter alsoAmong)
  have flat : fetchPages index prepared none
      = orderBy (pageTerms index prepared.order) (matchingPages index prepared) := by
    rw [fetchPages_eq]
    simp only [inGroup, filter_true]
  rw [fetchPages_eq, flat, ← orderBy_filter distinguished]
  rfl

theorem fetchPages_none_perm :
    (fetchPages index prepared none).Perm (matchingPages index prepared) := by
  rw [fetchPages_eq]
  simp only [inGroup, filter_true]
  exact orderBy_perm _ _

end Pages

/-! ### Groups -/

section Headers

variable {index : Index} {prepared : PreparedQuery} {column : GroupColumn} {joins : List String}

abbrev JoinedRow := GroupedRow × List (Option StoredProperty)

def JoinedRow.place (row : JoinedRow) : Place := row.1.key.place

def placeOf (group : List JoinedRow) : Option Place := group.head?.map JoinedRow.place

def groupPages (index : Index) (prepared : PreparedQuery) (column : GroupColumn)
    (group : List JoinedRow) : List StoredPage :=
  (fetchPages index prepared none).filter fun page =>
    some (column.row index page).key.place = placeOf group

def headerRows (index : Index) (prepared : PreparedQuery) (column : GroupColumn)
    (joins : List String) : List JoinedRow :=
  (matchingPages index prepared).map fun page =>
    (column.row index page, joins.map fun key => index.firstProperty key page)

theorem headerGroups_perm : (headerGroups index prepared column joins).Perm
      (groupBy JoinedRow.place (headerRows index prepared column joins)) := by
  have selected : (index.joinProperties (fun row : GroupedRow => row.page) joins
        (column.join index index.pages.rows)).filter
        (fun row => prepared.condition.selects index.tables row.1.page.row)
      = headerRows index prepared column joins := by
    rw [GroupColumn.join_eq, Index.joinProperties_eq, List.map_map, List.filter_map]
    simp only [comp_def, GroupColumn.row_page]
    rfl
  unfold headerGroups
  dsimp only
  rw [selected]
  exact orderBy_perm _ _

variable {group : List JoinedRow}

theorem eq_filter_of_mem_headerGroups (among : group ∈ headerGroups index prepared column joins) :
    group = (headerRows index prepared column joins).filter fun row =>
      some row.place = placeOf group :=
  eq_filter_of_mem_groupBy (headerGroups_perm.mem_iff.1 among)

theorem exists_head_of_mem_headerGroups (among : group ∈ headerGroups index prepared column joins) :
    ∃ first, group.head? = some first := by
  have hasPlace := List.mem_map_of_mem (f := placeOf) (headerGroups_perm.mem_iff.1 among)
  have places := map_head?_groupBy JoinedRow.place (headerRows index prepared column joins)
  unfold placeOf at hasPlace
  rw [places] at hasPlace
  have ⟨place, _, isPlace⟩ := List.mem_map.1 hasPlace
  cases isFirst : group.head? with
  | some first => exact ⟨first, rfl⟩
  | none =>
    rw [isFirst] at isPlace
    exact nomatch isPlace

theorem nodup_places : ((headerGroups index prepared column joins).map placeOf).Nodup := by
  have places := map_head?_groupBy JoinedRow.place (headerRows index prepared column joins)
  have same := (@headerGroups_perm index prepared column joins).map placeOf
  unfold placeOf at same ⊢
  rw [same.nodup_iff, places]
  exact (nodup_dedup _).map (some_injective _)

theorem total_groupHeader (among : group ∈ headerGroups index prepared column joins) :
    (groupHeader group).total = (groupPages index prepared column group).length := by
  have pages := (@fetchPages_none_perm index prepared).filter fun page =>
    decide (some (column.row index page).key.place = placeOf group)
  have rows := congrArg List.length (eq_filter_of_mem_headerGroups among)
  unfold headerRows at rows
  rw [List.filter_map, length_map] at rows
  exact rows.trans pages.length_eq.symm

theorem key_groupHeader {first : JoinedRow} (isFirst : group.head? = some first) :
    (groupHeader group).key = (some first.1.key).filter fun key => key ≠ .null := by
  rw [groupHeader, isFirst]
  rfl

theorem filter_ne_null {key : Value} (stored : key ≠ .null) :
    (some key).filter (fun key => key ≠ .null) = some key :=
  filter_some_pos (decide_eq_true stored)

theorem inGroup_iff (column : GroupColumn) (key : Value) (row : GroupedRow) :
    inGroup (some (column, (some key).filter fun key => key ≠ .null)) row = true
      ↔ row.key.place = key.place := by
  by_cases isNull : key = .null
  · subst isNull
    rw [Value.place_eq_null_iff]
    exact beq_iff_eq
  · rw [filter_ne_null isNull, ← compareValues_eq_iff_place isNull]
    exact beq_iff_eq

theorem fetchPages_groupHeader (among : group ∈ headerGroups index prepared column joins) :
    fetchPages index prepared (some (column, (groupHeader group).key))
      = groupPages index prepared column group := by
  have ⟨first, isFirst⟩ := exists_head_of_mem_headerGroups among
  have place : placeOf group = some first.1.key.place := by
    rw [placeOf, isFirst]
    rfl
  rw [fetchPages_group, groupPages, key_groupHeader isFirst, place]
  apply filter_congr
  intro page _
  rw [Bool.eq_iff_iff, inGroup_iff, decide_eq_true_iff, some.injEq]

theorem flatten_groupPages_perm : ((headerGroups index prepared column joins).map
      (groupPages index prepared column)).flatten.Perm (fetchPages index prepared none) := by
  have places := map_head?_groupBy JoinedRow.place (headerRows index prepared column joins)
  have byPlace : (groupBy JoinedRow.place (headerRows index prepared column joins)).map
      (groupPages index prepared column)
      = (((headerRows index prepared column joins).map JoinedRow.place).dedup.map some).map
        fun place => (fetchPages index prepared none).filter fun page =>
          some (column.row index page).key.place = place := by
    rw [← places, List.map_map]
    rfl
  have covered : ∀ page ∈ fetchPages index prepared none, some (column.row index page).key.place
        ∈ ((headerRows index prepared column joins).map JoinedRow.place).dedup.map some := by
    intro page among
    have isMatching := fetchPages_none_perm.mem_iff.1 among
    refine List.mem_map_of_mem (mem_dedup.2 ?_)
    exact List.mem_map_of_mem (f := JoinedRow.place) (List.mem_map_of_mem isMatching)
  have distinct : (((headerRows index prepared column joins).map
      JoinedRow.place).dedup.map some).Nodup :=
    (nodup_dedup _).map (some_injective _)
  have regrouped := (@headerGroups_perm index prepared column joins).flatMap_right
    (groupPages index prepared column)
  rw [List.flatMap, List.flatMap, byPlace] at regrouped
  exact regrouped.trans (flatten_filter_perm_of_forall distinct covered)

theorem sqlValueToJson_injective (showDouble : ℚ → String) :
    Injective (sqlValueToJson showDouble) := by
  intro first second same
  cases first <;> cases second <;> simp_all [sqlValueToJson]

def GroupHeader.jsonKey (showDouble : ℚ → String) (header : GroupHeader) : Json :=
  (header.key.map (sqlValueToJson showDouble)).getD .null

theorem nodup_jsonKeys (showDouble : ℚ → String) :
    (((headerGroups index prepared column joins).map groupHeader).map
      (GroupHeader.jsonKey showDouble)).Nodup := by
  have shown : ∀ group ∈ headerGroups index prepared column joins, ∃ first, group.head? = some first
        ∧ (groupHeader group).jsonKey showDouble = sqlValueToJson showDouble first.1.key := by
    intro group among
    have ⟨first, isFirst⟩ := exists_head_of_mem_headerGroups among
    refine ⟨first, isFirst, ?_⟩
    rw [GroupHeader.jsonKey, key_groupHeader isFirst]
    by_cases isNull : first.1.key = .null
    · rw [isNull]
      rfl
    · rw [filter_ne_null isNull]
      rfl
  rw [List.map_map]
  refine pairwise_map.2 ((pairwise_map.1 nodup_places).imp_of_mem ?_)
  intro group other among alsoAmong different same
  have ⟨first, isFirst, shownFirst⟩ := shown group among
  have ⟨second, isSecond, shownSecond⟩ := shown other alsoAmong
  have sameKey : first.1.key = second.1.key :=
    sqlValueToJson_injective showDouble (shownFirst.symm.trans (same.trans shownSecond))
  apply different
  unfold placeOf JoinedRow.place
  rw [isFirst, isSecond, map_some, map_some, sameKey]

end Headers

/-! ### What an evaluation needs -/

section Planning

variable {texts : JsonTexts} {events : String → List MarkdownEvent} {unicode : Unicode}
  {index : Index} {ctx : QueryContext} {spec : QuerySpec}

theorem inQuery_ok_iff {α : Type} {result : Except QueryError α} {value : α} :
    inQuery result = .ok value ↔ result = .ok value := by
  cases result <;> simp [inQuery, Except.mapError]

theorem planAggregates_append {first second : List (AggregateFn × Option String)} :
    (∃ joins, planAggregates ctx (first ++ second) = .ok joins) ↔
      (∃ joins, planAggregates ctx first = .ok joins)
        ∧ ∃ joins, planAggregates ctx second = .ok joins := by
  unfold planAggregates
  rw [mapM_append]
  cases first.mapM (planAggregate ctx) with
  | error error => exact iff_of_false nofun nofun
  | ok joins =>
    cases second.mapM (planAggregate ctx) with
    | error error => exact iff_of_false nofun nofun
    | ok others => exact iff_of_true ⟨_, rfl⟩ ⟨⟨_, rfl⟩, ⟨_, rfl⟩⟩

structure Planned (unicode : Unicode) (index : Index) (ctx : QueryContext) (spec : QuerySpec)
    (prepared : PreparedQuery) (plan : List (String × ColumnSource)) (unfiltered : Option Nat) :
    Prop where
  prepare_eq : prepare unicode ctx spec = .ok prepared
  aggregates : ∃ joins, planAggregates ctx spec.plannedAggregates = .ok joins
  metrics : ∃ joins, planAggregates ctx spec.plannedMetrics = .ok joins
  columns : planColumns ctx spec.columns = .ok plan
  unfiltered_eq : unfilteredTotal unicode index ctx spec = .ok unfiltered

theorem wholeViewTotal_eq (prepared : PreparedQuery) (joins : List String) :
    wholeViewTotal index prepared joins = (matchingPages index prepared).length := by
  unfold wholeViewTotal
  rw [Index.joinProperties_eq, List.filter_map, length_map]
  rfl

theorem fetchRows_ok_iff {prepared : PreparedQuery} {group : Option (GroupColumn × Option Value)}
    {limit : Option Nat} {offset : Nat} {rows : List QueryRow} :
    fetchRows texts events index ctx spec prepared group limit offset = .ok rows ↔
      ∃ plan, planColumns ctx spec.columns = .ok plan
        ∧ rows = (windowOf limit offset (fetchPages index prepared group)).map
          (queryRow texts events index spec prepared plan) := by
  unfold fetchRows
  cases planColumns ctx spec.columns with
  | error error => exact iff_of_false nofun nofun
  | ok plan =>
    constructor
    · intro fetched
      exact ⟨plan, rfl, (Except.ok.inj fetched).symm⟩
    · intro ⟨other, same, shown⟩
      rw [shown, ← Except.ok.inj same]
      rfl

theorem evaluateFlat_ok_iff {flat : FlatResult} :
    evaluateFlat texts events unicode index ctx spec = .ok flat ↔
      ∃ prepared plan, Planned unicode index ctx spec prepared plan flat.unfilteredTotal
        ∧ flat.rows = (windowOf spec.limit spec.offset (fetchPages index prepared none)).map
          (queryRow texts events index spec prepared plan)
        ∧ flat.total = (matchingPages index prepared).length := by
  unfold evaluateFlat
  constructor
  · intro succeeds
    have ⟨prepared, isPrepared, rest⟩ := Fallible.of_bind_ok succeeds
    have ⟨joins, areJoins, rest⟩ := Fallible.of_bind_ok rest
    have ⟨rows, fetched, rest⟩ := Fallible.of_bind_ok rest
    have ⟨unfiltered, counted, rest⟩ := Fallible.of_bind_ok rest
    obtain rfl := Except.ok.inj rest
    obtain ⟨plan, columns, rfl⟩ := fetchRows_ok_iff.1 (inQuery_ok_iff.1 fetched)
    have planned := planAggregates_append.1 ⟨joins, areJoins⟩
    exact ⟨prepared, plan, ⟨inQuery_ok_iff.1 isPrepared, planned.1, planned.2, columns,
      inQuery_ok_iff.1 counted⟩, rfl, wholeViewTotal_eq prepared joins⟩
  · rintro ⟨prepared, plan, planned, rows, total⟩
    have ⟨joins, areJoins⟩ := planAggregates_append.2 ⟨planned.aggregates, planned.metrics⟩
    have fetched := fetchRows_ok_iff.2 ⟨plan, planned.columns, rows⟩
    rw [Fallible.bind_of_eq_ok (inQuery_ok_iff.2 planned.prepare_eq),
      Fallible.bind_of_eq_ok areJoins, Fallible.bind_of_eq_ok (inQuery_ok_iff.2 fetched),
      Fallible.bind_of_eq_ok (inQuery_ok_iff.2 planned.unfiltered_eq), wholeViewTotal_eq,
      ← total]

def groupResult (showDouble : ℚ → String) (header : GroupHeader) (rows : List QueryRow) :
    GroupResult where
  key := header.jsonKey showDouble
  keyLabel := header.keyLabel
  keyPath := header.keyPath
  total := header.total
  rows := rows

theorem evaluateGrouped_of_planned {prepared : PreparedQuery} {plan : List (String × ColumnSource)}
    {unfiltered : Option Nat} (planned : Planned unicode index ctx spec prepared plan unfiltered)
    {key : String} {column : GroupColumn} (isColumn : groupColumn ctx key = .ok column)
    (showDouble : ℚ → String) :
    ∃ joins, evaluateGrouped texts events unicode index ctx showDouble spec key
      = .ok ⟨(headerGroups index prepared column joins).map fun group =>
          groupResult showDouble (groupHeader group)
            ((windowOf spec.groupRowLimit.rows 0 (groupPages index prepared column group)).map
              (queryRow texts events index spec prepared plan)), unfiltered⟩ := by
  have ⟨joins, areJoins⟩ := planned.aggregates
  have ⟨others, areOthers⟩ := planned.metrics
  refine ⟨joins, ?_⟩
  unfold evaluateGrouped
  rw [Fallible.bind_of_eq_ok isColumn,
    Fallible.bind_of_eq_ok (inQuery_ok_iff.2 planned.prepare_eq),
    Fallible.bind_of_eq_ok areJoins, Fallible.bind_of_eq_ok areOthers, mapM_map,
    Fallible.mapM_eq_ok_map (g := fun group => groupResult showDouble (groupHeader group)
      ((windowOf spec.groupRowLimit.rows 0 (groupPages index prepared column group)).map
        (queryRow texts events index spec prepared plan)))]
  · rw [Fallible.bind_of_eq_ok rfl,
      Fallible.bind_of_eq_ok (inQuery_ok_iff.2 planned.unfiltered_eq)]
  · intro group among
    have fetched := fetchRows_ok_iff.2 ⟨plan, planned.columns, congrArg (fun pages =>
      (windowOf spec.groupRowLimit.rows 0 pages).map
        (queryRow texts events index spec prepared plan)) (fetchPages_groupHeader among).symm⟩
    exact Fallible.bind_of_eq_ok (inQuery_ok_iff.2 fetched)

theorem planned_of_evaluateGrouped {showDouble : ℚ → String} {key : String}
    {grouped : GroupedResult}
    (succeeds : evaluateGrouped texts events unicode index ctx showDouble spec key = .ok grouped)
    (nonempty : grouped.groups ≠ []) :
    ∃ prepared plan, Planned unicode index ctx spec prepared plan grouped.unfilteredTotal := by
  unfold evaluateGrouped at succeeds
  have ⟨column, _, rest⟩ := Fallible.of_bind_ok succeeds
  have ⟨prepared, isPrepared, rest⟩ := Fallible.of_bind_ok rest
  have ⟨joins, areJoins, rest⟩ := Fallible.of_bind_ok rest
  have ⟨others, areOthers, rest⟩ := Fallible.of_bind_ok rest
  have ⟨groups, areGroups, rest⟩ := Fallible.of_bind_ok rest
  have ⟨unfiltered, counted, rest⟩ := Fallible.of_bind_ok rest
  obtain rfl := Except.ok.inj rest
  have ⟨group, among⟩ := exists_mem_of_ne_nil groups nonempty
  have ⟨header, _, shown⟩ :=
    Fallible.exists_of_forall₂ (Fallible.forall₂_of_mapM_eq_ok areGroups).flip group among
  have ⟨rows, fetched, _⟩ := Fallible.of_bind_ok shown
  have ⟨plan, columns, _⟩ := fetchRows_ok_iff.1 (inQuery_ok_iff.1 fetched)
  exact ⟨prepared, plan, inQuery_ok_iff.1 isPrepared, ⟨joins, areJoins⟩, ⟨others, areOthers⟩,
    columns, inQuery_ok_iff.1 counted⟩

end Planning

/-! ### The groups are a partition -/

theorem windowOf_map {α β : Type} (f : α → β) (limit : Option Nat) (offset : Nat) (rows : List α) :
    (windowOf limit offset rows).map f = windowOf limit offset (rows.map f) := by
  cases limit with
  | none => exact map_drop
  | some limit => rw [windowOf, windowOf, map_take, map_drop]

theorem nodup_fetchedPaths {index : Index} {prepared : PreparedQuery} :
    ((fetchPages index prepared none).map fun page => page.row.path).Nodup := by
  have same := (@fetchPages_none_perm index prepared).map fun page =>
    page.row.path
  rw [same.nodup_iff]
  exact index.paths_distinct.sublist (filter_sublist.map _)

theorem sum_totals {index : Index} {prepared : PreparedQuery} {column : GroupColumn}
    {joins : List String} :
    ((headerGroups index prepared column joins).map fun group => (groupHeader group).total).sum
      = (matchingPages index prepared).length := by
  have totals : (headerGroups index prepared column joins).map
        (fun group => (groupHeader group).total)
      = ((headerGroups index prepared column joins).map
        (groupPages index prepared column)).map List.length := by
    rw [List.map_map]
    exact map_congr_left fun group among => total_groupHeader among
  rw [totals, ← length_flatten, flatten_groupPages_perm.length_eq, fetchPages_none_perm.length_eq]

/-- The groups have different keys and their totals sum to the flat total. The rows without a
window are split into one part for each group, in the flat order, up to the row limit. -/
theorem groups_partition (texts : JsonTexts) (events : String → List MarkdownEvent)
    (unicode : Unicode) (index : Index) (ctx : QueryContext) (showDouble : ℚ → String)
    (spec : QuerySpec) (key : String) (groupable : ∃ column, groupColumn ctx key = .ok column) :
    (∀ flat, evaluateFlat texts events unicode index ctx spec = .ok flat → ∃ grouped all parts,
        evaluateGrouped texts events unicode index ctx showDouble spec key = .ok grouped
          ∧ evaluateFlat texts events unicode index ctx { spec with limit := none, offset := 0 }
            = .ok ⟨all, flat.total, flat.unfilteredTotal⟩
          ∧ flat.rows = windowOf spec.limit spec.offset all
          ∧ (all.map (·.path)).Nodup
          ∧ (grouped.groups.map (·.key)).Nodup
          ∧ (grouped.groups.map (·.total)).sum = flat.total
          ∧ parts.flatten.Perm all
          ∧ (∀ part ∈ parts, part.Sublist all)
          ∧ List.Forall₂ (fun group part => group.total = part.length
              ∧ group.rows = windowOf spec.groupRowLimit.rows 0 part) grouped.groups parts
          ∧ (spec.groupRowLimit = .unlimited → grouped.groups.map (·.rows) = parts))
      ∧ ∀ grouped,
        evaluateGrouped texts events unicode index ctx showDouble spec key = .ok grouped →
        grouped.groups = []
          ∨ ∃ flat, evaluateFlat texts events unicode index ctx spec = .ok flat := by
  constructor
  · intro flat succeeds
    have ⟨column, isColumn⟩ := groupable
    have ⟨prepared, plan, planned, rows, total⟩ := evaluateFlat_ok_iff.1 succeeds
    have ⟨joins, isGrouped⟩ := @evaluateGrouped_of_planned texts events unicode index ctx
      spec prepared plan _ planned key column isColumn showDouble
    let shown := queryRow texts events index spec prepared plan
    let groups := headerGroups index prepared column joins
    let pages := groupPages index prepared column
    have partition := (@flatten_groupPages_perm index prepared column joins).map shown
    rw [map_flatten, List.map_map] at partition
    refine ⟨_, (fetchPages index prepared none).map shown,
      groups.map fun group => (pages group).map shown, isGrouped,
      ?_, ?_, ?_, ?_, ?_, partition, ?_, ?_, ?_⟩
    · exact evaluateFlat_ok_iff.2 ⟨prepared, plan, ⟨planned.prepare_eq, planned.aggregates,
        planned.metrics, planned.columns, planned.unfiltered_eq⟩, rfl, total⟩
    · rw [rows, windowOf_map]
    · rw [List.map_map]
      exact nodup_fetchedPaths
    · have distinct := @nodup_jsonKeys index prepared column joins showDouble
      rwa [List.map_map] at distinct ⊢
    · rw [List.map_map, total]
      exact sum_totals
    · intro part among
      obtain ⟨group, _, rfl⟩ := List.mem_map.1 among
      exact filter_sublist.map shown
    · rw [forall₂_map_left_iff, forall₂_map_right_iff, forall₂_same]
      intro group among
      refine ⟨?_, windowOf_map shown _ _ _⟩
      rw [length_map]
      exact total_groupHeader among
    · intro unlimited
      rw [List.map_map, unlimited]
      rfl
  · intro grouped succeeds
    by_cases empty : grouped.groups = []
    · exact Or.inl empty
    · have ⟨prepared, plan, planned⟩ := planned_of_evaluateGrouped succeeds empty
      exact Or.inr ⟨⟨_, _, grouped.unfilteredTotal⟩, evaluateFlat_ok_iff.2
        ⟨prepared, plan, planned, rfl, rfl⟩⟩

/-! ### One page in one group -/

namespace GroupSample

def spec (offset : Nat) : QuerySpec where
  filter := none
  q := none
  searchColumns := none
  sort := []
  groupBy := some "kind"
  aggregates := []
  colorRules := []
  metrics := []
  columns := []
  limit := none
  offset := offset
  groupRowLimit := .unlimited

def flat (offset : Nat) : Except EvaluationError FlatResult :=
  evaluateFlat ⟨id, id⟩ (fun _ => []) ColumnSample.unicode ColumnSample.index ColumnSample.ctx
    (spec offset)

def grouped (offset : Nat) : Except EvaluationError GroupedResult :=
  evaluateGrouped ⟨id, id⟩ (fun _ => []) ColumnSample.unicode ColumnSample.index ColumnSample.ctx
    (fun _ => "") (spec offset) "kind"

end GroupSample

/-- The one page is in one group. -/
theorem groups_partition_kind :
    ∃ flat grouped, GroupSample.flat 0 = .ok flat ∧ GroupSample.grouped 0 = .ok grouped
      ∧ flat.total = 1 ∧ (grouped.groups.map (·.total)).sum = flat.total := by
  obtain ⟨flat, succeeds, total⟩ : ∃ flat, GroupSample.flat 0 = .ok flat ∧ flat.total = 1 :=
    ⟨_, rfl, rfl⟩
  have ⟨grouped, _, _, isGrouped, _, _, _, _, sum, _⟩ :=
    (groups_partition ⟨id, id⟩ (fun _ => []) ColumnSample.unicode ColumnSample.index
      ColumnSample.ctx (fun _ => "") (GroupSample.spec 0) "kind" ⟨.system .pageKind, rfl⟩).1
      _ succeeds
  exact ⟨flat, grouped, succeeds, isGrouped, total, sum⟩

/-- An offset moves the window of the flat rows, and not that of the rows of a group. -/
theorem groups_ignore_offset :
    ∃ flat grouped, GroupSample.flat 1 = .ok flat ∧ GroupSample.grouped 1 = .ok grouped
      ∧ flat.rows = []
      ∧ grouped.groups.flatMap (fun group => group.rows.map (·.path)) = ["notes/log.md"] :=
  ⟨_, _, rfl, rfl, rfl, rfl⟩

/-! ### What a query finds -/

/-- Without a search, a flat result shows the pages on which the filter is true. -/
theorem evaluateFlat_finds_true {texts : JsonTexts} {events : String → List MarkdownEvent}
    {unicode : Unicode} {index : Index} {ctx : QueryContext} {spec : QuerySpec} {flat : FlatResult}
    (unsearched : spec.searched = none)
    (succeeds : evaluateFlat texts events unicode index ctx spec = .ok flat) :
    ∃ found, found.Perm (index.pages.rows.filter fun page => spec.filter.all fun filter =>
        filterMeaning unicode ctx index.tables page.row filter == some true)
      ∧ flat.total = found.length
      ∧ flat.rows.map (·.path) = (windowOf spec.limit spec.offset found).map (·.row.path) := by
  obtain ⟨prepared, plan, planned, rows, total⟩ := evaluateFlat_ok_iff.1 succeeds
  have selects : ∀ page, prepared.condition.selects index.tables page = spec.filter.all
      fun filter => filterMeaning unicode ctx index.tables page filter == some true := by
    obtain ⟨condition, compiles, rest⟩ := Fallible.of_bind_ok planned.prepare_eq
    obtain ⟨_, -, rest⟩ := Fallible.of_bind_ok rest
    obtain ⟨_, -, rest⟩ := Fallible.of_bind_ok rest
    cases rest
    obtain ⟨compiled, success, rest⟩ := Fallible.of_bind_ok compiles
    rw [searchClause, unsearched] at rest
    cases rest
    cases filtered : spec.filter with
    | none =>
      rw [filtered] at success
      cases success
      exact fun _ => rfl
    | some filter =>
      rw [filtered] at success
      exact fun page => (compileFilter_realizes index.tables page success).selects_eq
  have same := @fetchPages_none_perm index prepared
  refine ⟨_, same.trans (.of_eq ?_), total.trans same.length_eq.symm, ?_⟩
  · exact filter_congr fun page _ => selects page.row
  · rw [rows, List.map_map]
    rfl

theorem evaluateFlat_finds_true_kind : ∃ flat, GroupSample.flat 0 = .ok flat ∧ flat.total = 1 := by
  obtain ⟨flat, succeeds⟩ : ∃ flat, GroupSample.flat 0 = .ok flat := ⟨_, rfl⟩
  have ⟨found, isFound, total, _⟩ := evaluateFlat_finds_true (by rfl) succeeds
  exact ⟨flat, succeeds, total.trans isFound.length_eq⟩

end Clepsydra.Bases
