import Clepsydra.Search.Ranking

/-!
Owns: the general statement for an expression that is one text or a conjunction of texts.

Proves: it and the shortened one are refused alike, or return the same rows under every limit. A
search finds the pages on which its expression holds.
-/

namespace Clepsydra.Search

open Library Library.Fallible Library.Relational Library.Sqlite List Option

/-! ### Expressions of plain texts -/

def textExpr (leaf : String × TextMode × SearchSpan) : SearchExpr := .text leaf.1 leaf.2.1 leaf.2.2

theorem ordinaryPositiveTextLeaves_eq_some {expression : SearchExpr}
    {leaves : List (String × TextMode × SearchSpan)}
    (ordinary : ordinaryPositiveTextLeaves expression = some leaves) :
    (∃ leaf, leaves = [leaf] ∧ expression = textExpr leaf) ∨
      ∃ span, expression = .all (leaves.map textExpr) span := by
  cases expression with
  | text value mode span =>
    obtain rfl := some.inj ordinary
    exact Or.inl ⟨_, rfl, rfl⟩
  | all children span =>
    have each := forall₂_of_mapM_eq_some ordinary
    refine Or.inr ⟨span, congrArg (SearchExpr.all · span) ?_⟩
    clear ordinary
    induction each with
    | nil => rfl
    | @cons child leaf children leaves first _ ih =>
      rw [map_cons, ← ih]
      congr 1
      cases child with
      | text value mode span =>
        obtain rfl := some.inj first
        rfl
      | field | all | any | not => exact nomatch first
  | field | any | not => exact nomatch ordinary

section Compiled

variable (isAlphanumeric : Char → Bool) (input : List Char)

def ftsTexts (leaves : List (String × TextMode × SearchSpan)) :
    Except SearchQueryError (List String) :=
  leaves.mapM fun (value, mode, span) => ftsExpression isAlphanumeric input value mode span

variable {isAlphanumeric : Char → Bool} {input : List Char}

theorem ftsExpression_eq_ok {value : String} {mode : TextMode} {span : SearchSpan} {text : String}
    (success : ftsExpression isAlphanumeric input value mode span = .ok text) :
    text = ftsText isAlphanumeric value mode := by
  unfold ftsExpression at success
  by_cases empty : (ftsText isAlphanumeric value mode).isEmpty = true
  · simp [empty] at success
  · simp only [empty] at success
    exact (Except.ok.inj success).symm

variable {leaves : List (String × TextMode × SearchSpan)}

theorem ftsTexts_eq_ok : ∀ {texts : List String}, ftsTexts isAlphanumeric input leaves = .ok texts →
      texts = leaves.map fun leaf => ftsText isAlphanumeric leaf.1 leaf.2.1 := by
  induction leaves with
  | nil =>
    intro texts success
    exact (Except.ok.inj success).symm
  | cons leaf leaves ih =>
    intro texts success
    rw [ftsTexts, mapM_cons] at success
    have ⟨text, first, success⟩ := of_bind_ok success
    have ⟨others, rest, success⟩ := of_bind_ok success
    obtain rfl := Except.ok.inj success
    rw [map_cons, ← ih rest, ftsExpression_eq_ok first]

def Compiler.pushText (compiler : Compiler) (text : String) : Compiler :=
  let (parameter, compiler) := compiler.bind (.text text)
  (compiler.pushLeaf parameter true).2

theorem Compiler.foldl_pushText (texts : List String) : ∀ compiler : Compiler,
    (texts.foldl Compiler.pushText compiler).parameters =
        compiler.parameters ++ texts.map Value.text ∧
      (texts.foldl Compiler.pushText compiler).textLeaves.map TextLeaf.parameter =
        compiler.textLeaves.map TextLeaf.parameter ++
          List.range' (compiler.parameters.length + 1) texts.length := by
  induction texts with
  | nil =>
    intro compiler
    simp
  | cons text texts ih =>
    intro compiler
    have ⟨parameters, leaves⟩ := ih (compiler.pushText text)
    rw [foldl_cons, parameters, leaves]
    simp [Compiler.pushText, Compiler.bind, Compiler.pushLeaf, range'_succ]

theorem ftsTexts_cons (leaf : String × TextMode × SearchSpan)
    (leaves : List (String × TextMode × SearchSpan)) :
    ftsTexts isAlphanumeric input (leaf :: leaves) =
      (ftsExpression isAlphanumeric input leaf.1 leaf.2.1 leaf.2.2 >>= fun text =>
        (ftsTexts isAlphanumeric input leaves).map (text :: ·)) := by
  rw [ftsTexts, mapM_cons]
  rfl

theorem compileExpression_textExpr (leaf : String × TextMode × SearchSpan) (compiler : Compiler) :
    (compileExpression isAlphanumeric input (textExpr leaf) false compiler).map Prod.snd =
      (ftsExpression isAlphanumeric input leaf.1 leaf.2.1 leaf.2.2).map compiler.pushText := by
  rw [textExpr, compileExpression]
  cases ftsExpression isAlphanumeric input leaf.1 leaf.2.1 leaf.2.2 with
  | error failure => rfl
  | ok text => rfl

theorem compileChildren_cons (child : SearchExpr) (rest : List SearchExpr) (negated : Bool)
    (compiler : Compiler) :
    (compileChildren isAlphanumeric input (child :: rest) negated compiler).map Prod.snd =
      ((compileExpression isAlphanumeric input child negated compiler).map Prod.snd >>=
        fun compiler =>
          (compileChildren isAlphanumeric input rest negated compiler).map Prod.snd) := by
  rw [compileChildren]
  cases compileExpression isAlphanumeric input child negated compiler with
  | error failure => rfl
  | ok compiled =>
    show Except.map Prod.snd (compileChildren isAlphanumeric input rest negated compiled.2 >>= _) =
      Except.map Prod.snd (compileChildren isAlphanumeric input rest negated compiled.2)
    cases compileChildren isAlphanumeric input rest negated compiled.2 with
    | error | ok => rfl

theorem compileChildren_texts (leaves : List (String × TextMode × SearchSpan)) :
    ∀ compiler : Compiler,
      (compileChildren isAlphanumeric input (leaves.map textExpr) false compiler).map Prod.snd =
        (ftsTexts isAlphanumeric input leaves).map fun texts =>
          texts.foldl Compiler.pushText compiler := by
  induction leaves with
  | nil => exact fun _ => rfl
  | cons leaf leaves ih =>
    intro compiler
    rw [map_cons, compileChildren_cons, compileExpression_textExpr, ftsTexts_cons]
    cases ftsExpression isAlphanumeric input leaf.1 leaf.2.1 leaf.2.2 with
    | error failure => rfl
    | ok text =>
      show (compileChildren isAlphanumeric input (leaves.map textExpr) false
        (compiler.pushText text)).map Prod.snd = _
      rw [ih]
      cases ftsTexts isAlphanumeric input leaves with
      | error | ok => rfl

theorem compileExpression_ordinary {expression : SearchExpr}
    {leaves : List (String × TextMode × SearchSpan)}
    (ordinary : ordinaryPositiveTextLeaves expression = some leaves) :
    (compileExpression isAlphanumeric input expression false .new).map Prod.snd =
      (ftsTexts isAlphanumeric input leaves).map fun texts =>
        texts.foldl Compiler.pushText .new := by
  rcases ordinaryPositiveTextLeaves_eq_some ordinary with ⟨leaf, rfl, rfl⟩ | ⟨span, rfl⟩
  · rw [compileExpression_textExpr, ftsTexts_cons]
    cases ftsExpression isAlphanumeric input leaf.1 leaf.2.1 leaf.2.2 with
    | error failure => rfl
    | ok text => rfl
  · rw [← compileChildren_texts, compileExpression]
    cases compileChildren isAlphanumeric input (leaves.map textExpr) false .new with
    | error | ok => rfl

variable {expression : SearchExpr}

theorem compile_ordinary_error (ordinary : ordinaryPositiveTextLeaves expression = some leaves)
    {failure : SearchQueryError} (refused : ftsTexts isAlphanumeric input leaves = .error failure)
    (limit : Nat) :
    compile isAlphanumeric input expression limit = .error failure := by
  have compiled := @compileExpression_ordinary isAlphanumeric input expression leaves ordinary
  rw [refused] at compiled
  unfold compile
  cases outcome : compileExpression isAlphanumeric input expression false .new with
  | error other =>
    rw [outcome] at compiled
    obtain rfl := Except.error.inj compiled
    rfl
  | ok result =>
    rw [outcome] at compiled
    exact nomatch compiled

theorem compile_ordinary_ok (ordinary : ordinaryPositiveTextLeaves expression = some leaves)
    {texts : List String} (accepted : ftsTexts isAlphanumeric input leaves = .ok texts)
    (limit : Nat) :
    ∃ query, compile isAlphanumeric input expression limit = .ok query ∧
      query.parameters = texts.map Value.text ++ [.integer (min limit (2 ^ 63 - 1))] ∧
      query.limitParameter = texts.length + 1 ∧
      query.textLeaves.map TextLeaf.parameter = List.range' 1 texts.length := by
  have compiled := @compileExpression_ordinary isAlphanumeric input expression leaves ordinary
  rw [accepted] at compiled
  have ⟨result, success, same⟩ := of_map_ok compiled
  obtain ⟨query, isQuery⟩ : ∃ query, compile isAlphanumeric input expression limit = .ok query :=
    compile_isOk_iff.2 ((compileExpression_isOk_iff false .new).1 ⟨result, success⟩)
  obtain ⟨expression', compiler, success', -, textLeaves, parameters, limitParameter⟩ :=
    compile_eq isQuery
  obtain rfl : result = (expression', compiler) := Except.ok.inj (success.symm.trans success')
  have ⟨pushed, numbered⟩ := Compiler.foldl_pushText texts .new
  rw [← show compiler = texts.foldl Compiler.pushText .new from same] at pushed numbered
  refine ⟨query, isQuery, ?_, ?_, ?_⟩
  · rw [parameters, pushed]
    rfl
  · rw [limitParameter, pushed]
    simp [Compiler.new]
  · rw [textLeaves, map_parameter_supportedBy, numbered]
    · rfl
    · rw [length_collectPositiveSupport, length_replicate]

/-! ### What the general statement asks for -/

theorem justificationsOfAll_texts (leaves : List (String × TextMode × SearchSpan)) :
    ∀ earlier : List Normal,
      justificationsOfAll earlier (normalChildren (leaves.map textExpr) false) =
        leaves.map fun leaf =>
          { positive := true, value := leaf.1, mode := leaf.2.1,
            kept := .all (earlier ++ normalChildren (leaves.map textExpr) false) } := by
  induction leaves with
  | nil => exact fun _ => rfl
  | cons leaf leaves ih =>
    intro earlier
    rw [map_cons, normalChildren, justificationsOfAll, ih, append_assoc]
    rfl

theorem everyHolds_texts (test : Leaf → Bool) (leaves : List (String × TextMode × SearchSpan)) :
    everyHolds test (normalChildren (leaves.map textExpr) false) =
      leaves.all fun leaf => test (.text leaf.1 leaf.2.1) := by
  induction leaves with
  | nil => rfl
  | cons leaf leaves ih =>
    rw [map_cons, normalChildren, everyHolds, ih, all_cons, textExpr,
      SearchExpr.normal, Normal.holds, Bool.not_false, beq_true]

theorem justifications_ordinary (ordinary : ordinaryPositiveTextLeaves expression = some leaves) :
    ∃ kept : Normal, (expression.normal false).justifications = leaves.map (fun leaf =>
          { positive := true, value := leaf.1, mode := leaf.2.1, kept }) ∧
      ∀ test, (expression.normal false).holds test =
          leaves.all (fun leaf => test (.text leaf.1 leaf.2.1)) ∧
        kept.holds test = leaves.all fun leaf => test (.text leaf.1 leaf.2.1) := by
  rcases ordinaryPositiveTextLeaves_eq_some ordinary with ⟨leaf, rfl, rfl⟩ | ⟨span, rfl⟩
  · refine ⟨.literal true (.text leaf.1 leaf.2.1), rfl, fun test => ?_⟩
    simp [textExpr, SearchExpr.normal, Normal.holds]
  · refine ⟨.all (normalChildren (leaves.map textExpr) false), justificationsOfAll_texts leaves [],
      fun test => ?_⟩
    exact ⟨everyHolds_texts test leaves, everyHolds_texts test leaves⟩

theorem grouped_ordinary (ordinary : ordinaryPositiveTextLeaves expression = some leaves)
    (nonempty : leaves ≠ []) :
    expression.grouped = true := by
  have grouped : ∀ leaves : List (String × TextMode × SearchSpan),
      groupedChildren (leaves.map textExpr) = true := by
    intro leaves
    induction leaves with
    | nil => rfl
    | cons leaf leaves ih => exact ih
  rcases ordinaryPositiveTextLeaves_eq_some ordinary with ⟨leaf, rfl, rfl⟩ | ⟨span, rfl⟩
  · rfl
  · rw [SearchExpr.grouped, grouped, Bool.and_true, isEmpty_map, Bool.not_eq_true']
    exact isEmpty_eq_false_iff.2 nonempty

structure Conjoins (query : CompiledQuery) (texts : List String) : Prop where
  selects : ∀ (content : IndexContent PageRow) (page : PageRow), query.selects content page = true ↔
      texts ≠ [] ∧ ∀ text ∈ texts, content.ftsMatches text page = true
  length : query.textLeaves.length = texts.length
  leaf : ∀ ordinal text, texts[ordinal]? = some text → ∃ leaf,
    query.textLeaves[ordinal]? = some leaf ∧ leaf.ordinal = ordinal ∧
      leaf.parameter = ordinal + 1 ∧ leaf.positive = true ∧
      ∀ (content : IndexContent PageRow) (page : PageRow), content.ftsMatches text page = true →
        ((leaf.support.any fun support => query.eval content page support == some true) = true ↔
          ∀ other ∈ texts, content.ftsMatches other page = true)

theorem boundParameter_text {texts : List String} {ordinal : Nat} {text : String}
    (here : texts[ordinal]? = some text) (limit : Value) :
    boundParameter (texts.map Value.text ++ [limit]) (ordinal + 1) = .text text := by
  have inRange : ordinal < (texts.map Value.text).length := by
    rw [length_map]
    exact (List.getElem?_eq_some_iff.1 here).1
  rw [boundParameter, Nat.add_sub_cancel, getElem?_append_left inRange, getElem?_map, here]
  rfl

theorem all_texts_iff {Page : Type} (content : IndexContent Page) (page : Page)
    (leaves : List (String × TextMode × SearchSpan)) :
    (leaves.all fun leaf => Leaf.holds isAlphanumeric content page (.text leaf.1 leaf.2.1)) = true ↔
      ∀ text ∈ leaves.map (fun leaf => ftsText isAlphanumeric leaf.1 leaf.2.1),
        content.ftsMatches text page = true := by
  rw [List.all_eq_true, List.forall_mem_map]
  rfl

theorem conjoins_of_compile (ordinary : ordinaryPositiveTextLeaves expression = some leaves)
    {texts : List String} (accepted : ftsTexts isAlphanumeric input leaves = .ok texts)
    {limit : Nat} {query : CompiledQuery}
    (compiles : compile isAlphanumeric input expression limit = .ok query) {bound : Value}
    (parameters : query.parameters = texts.map Value.text ++ [bound])
    (numbered : query.textLeaves.map TextLeaf.parameter = List.range' 1 texts.length) :
    Conjoins query texts := by
  by_cases nonempty : leaves = []
  · -- `()` is not an expression: nothing is selected
    subst nonempty
    obtain rfl := Except.ok.inj accepted
    rcases ordinaryPositiveTextLeaves_eq_some ordinary with ⟨leaf, impossible, -⟩ | ⟨span, rfl⟩
    · exact nomatch impossible
    · obtain rfl := Except.ok.inj compiles
      refine ⟨fun content page => ?_, rfl, fun _ _ found => nomatch found⟩
      constructor
      · exact fun impossible => nomatch impossible
      · exact fun wanted => absurd rfl wanted.1
  · have justified := @justifies_of_compile _ _ PageRow _ _ _
      (grouped_ordinary ordinary nonempty) compiles
    obtain ⟨kept, justifications, holds⟩ := justifications_ordinary ordinary
    obtain rfl := ftsTexts_eq_ok accepted
    have sameLength : query.textLeaves.length =
        (leaves.map fun leaf => ftsText isAlphanumeric leaf.1 leaf.2.1).length := by
      rw [← length_map (f := TextLeaf.parameter), numbered, length_range']
    refine ⟨fun content page => ?_, sameLength, fun ordinal text here => ?_⟩
    · rw [(justified content page).1,
        ← Bool.bne_false (expression.holds isAlphanumeric content page), ← holds_normal, (holds _).1,
        all_texts_iff, Ne, map_eq_nil_iff]
      exact (and_iff_right nonempty).symm
    · have atParameter := boundParameter_text here bound
      rw [getElem?_map, map_eq_some_iff] at here
      obtain ⟨source, sourceAt, rfl⟩ := here
      have leafNumber :
          (query.textLeaves[ordinal]?).map TextLeaf.parameter = some (ordinal + 1) := by
        have inRange := (List.getElem?_eq_some_iff.1 sourceAt).1
        rw [← getElem?_map, numbered, getElem?_range' (by rwa [length_map]),
          Nat.one_mul, Nat.add_comm]
      obtain ⟨leaf, leafAt, parameter⟩ := map_eq_some_iff.1 leafNumber
      have meaning : ∀ (content : IndexContent PageRow) (page : PageRow),
          leaf.ordinal = ordinal ∧ leaf.positive = true ∧ query.justifies content page leaf =
              leaves.all fun leaf =>
                Leaf.holds isAlphanumeric content page (.text leaf.1 leaf.2.1) := by
        intro content page
        obtain ⟨-, -, leavesSpec⟩ := justified content page
        obtain ⟨same, sameAt, number, positive, spec⟩ := leavesSpec ordinal _
          (by rw [justifications, getElem?_map, sourceAt, map_some])
        obtain rfl := some.inj (leafAt.symm.trans sameAt)
        exact ⟨number, positive, (spec positive).2.1.trans (holds _).2⟩
      obtain ⟨number, positive, -⟩ := meaning
        ⟨fun _ => "", fun _ => none, fun _ => [], fun _ => [], fun _ _ => false⟩
        ⟨"", "", none, "", none, none⟩
      refine ⟨leaf, leafAt, number, parameter, positive, fun content page present => ?_⟩
      rw [← all_texts_iff, ← (meaning content page).2.2, CompiledQuery.justifies, textMatches,
        number, leafAt, map_some, parameter, parameters, atParameter]
      simp only [present, beq_self_eq_true, Bool.true_and]

end Compiled

/-! ### The ranks of both statements -/

section Rows

variable (engine : FtsEngine) (index : SearchIndex)

def textRows (text : String) : List TextRow :=
  (index.pagesFts.filter (engine.isMatch text)).map fun row =>
    { pageId := row.pageId, rank := engine.bm25 index.pagesFts text row }

variable {engine : FtsEngine} {index : SearchIndex} {texts : List String} {bound : Value}
  {ordinal : Nat}

theorem textTable_text {text : String} (here : texts[ordinal]? = some text) :
    textTable engine index (texts.map Value.text ++ [bound]) (ordinal + 1) =
      textRows engine index text := by
  rw [textTable, boundParameter_text here bound]
  rfl

variable {page : PageRow}

theorem ftsMatches_iff {text : String} : (index.content engine).ftsMatches text page = true ↔
      ∃ rank, { pageId := page.id, rank } ∈ textRows engine index text := by
  simp only [SearchIndex.content, List.any_eq_true, Bool.and_eq_true, beq_iff_eq, textRows,
    List.mem_map, mem_filter, TextRow.mk.injEq]
  constructor
  · intro ⟨row, inTable, samePage, isMatch⟩
    exact ⟨_, row, ⟨inTable, isMatch⟩, samePage, rfl⟩
  · intro ⟨_, row, ⟨inTable, isMatch⟩, samePage, _⟩
    exact ⟨row, inTable, samePage, isMatch⟩

def HasAll (engine : FtsEngine) (index : SearchIndex) (texts : List String) (page : PageRow) :
    Prop :=
  page ∈ index.pages ∧ ∀ text ∈ texts, (index.content engine).ftsMatches text page = true

def RankOf (engine : FtsEngine) (index : SearchIndex) (texts : List String) (row : TextRank) :
    Prop :=
  ∃ text, texts[row.ordinal]? = some text ∧
    { pageId := row.pageId, rank := row.rank } ∈ textRows engine index text

variable {query : CompiledQuery} {row : TextRank}

theorem mem_leafMatches {leaf : TextLeaf} : row ∈ query.leafMatches engine index leaf ↔
      row.ordinal = leaf.ordinal ∧
      { pageId := row.pageId, rank := row.rank } ∈
        textTable engine index query.parameters leaf.parameter ∧
      ∃ page ∈ index.pages, page.id = row.pageId ∧ (leaf.support.any fun support =>
          query.eval (index.content engine) page support == some true) = true := by
  simp only [CompiledQuery.leafMatches, List.mem_map, mem_filter, Prod.exists, mem_join, beq_iff_eq]
  constructor
  · rintro ⟨textRow, page, ⟨⟨inTable, inPages, samePage⟩, supported⟩, rfl⟩
    exact ⟨rfl, inTable, page, inPages, samePage, supported⟩
  · have ⟨pageId, rank, ordinal⟩ := row
    rintro ⟨rfl, inTable, page, inPages, samePage, supported⟩
    exact ⟨_, page, ⟨⟨inTable, inPages, samePage⟩, supported⟩, rfl⟩

theorem mem_positiveMatches (conjoins : Conjoins query texts)
    (parameters : query.parameters = texts.map Value.text ++ [bound]) :
    row ∈ query.positiveMatches engine index ↔
      RankOf engine index texts row ∧ ∃ page, HasAll engine index texts page ∧
        page.id = row.pageId := by
  rw [CompiledQuery.positiveMatches, mem_flatMap]
  constructor
  · rintro ⟨leaf, isLeaf, member⟩
    have ⟨sameOrdinal, inTable, page, inPages, samePage, supported⟩ := mem_leafMatches.1 member
    have ⟨ordinal, leafAt⟩ := mem_iff_getElem?.1 (mem_of_mem_filter isLeaf)
    have inRange : ordinal < texts.length :=
      conjoins.length ▸ (List.getElem?_eq_some_iff.1 leafAt).1
    have here := getElem?_eq_getElem inRange
    obtain ⟨same, sameAt, number, parameter, -, support⟩ := conjoins.leaf ordinal _ here
    obtain rfl := some.inj (leafAt.symm.trans sameAt)
    rw [parameters, parameter, textTable_text here] at inTable
    have present : (index.content engine).ftsMatches texts[ordinal] page = true :=
      ftsMatches_iff.2 ⟨row.rank, samePage ▸ inTable⟩
    refine ⟨⟨_, ?_, inTable⟩, page, ⟨inPages, (support _ page present).1 supported⟩, samePage⟩
    rw [sameOrdinal, number, here]
  · rintro ⟨⟨text, here, inTable⟩, page, ⟨inPages, hasAll⟩, samePage⟩
    have ⟨leaf, leafAt, number, parameter, positive, support⟩ := conjoins.leaf _ text here
    refine ⟨leaf, mem_filter.2 ⟨mem_of_getElem? leafAt, positive⟩, ?_⟩
    rw [mem_leafMatches, parameters, parameter, textTable_text here]
    have present := hasAll text (mem_of_getElem? here)
    exact ⟨number.symm, inTable, page, inPages, samePage, (support _ page present).2 hasAll⟩

/-! ### The candidates of the shortened statement -/

variable {ordinary : OrdinaryQuery} (count : ordinary.leafCount = texts.length)

include count

theorem text_of_getElem? (parameters : ordinary.parameters = texts.map Value.text ++ [bound])
    {text : String} (here : texts[ordinal]? = some text) :
    ordinary.text engine index ordinal = textRows engine index text := by
  have inRange : ordinal < ordinary.leafCount := count ▸ (List.getElem?_eq_some_iff.1 here).1
  rw [OrdinaryQuery.text, if_pos inRange, parameters, textTable_text here]

theorem mem_text (parameters : ordinary.parameters = texts.map Value.text ++ [bound])
    {row : TextRow} :
    row ∈ ordinary.text engine index ordinal ↔
      ∃ text, texts[ordinal]? = some text ∧ row ∈ textRows engine index text := by
  by_cases inRange : ordinal < texts.length
  · have here := getElem?_eq_getElem inRange
    rw [text_of_getElem? count parameters here, here]
    simp
  · rw [OrdinaryQuery.text, if_neg (by rwa [count]), getElem?_eq_none (by omega)]
    simp

theorem mem_positiveRanks (parameters : ordinary.parameters = texts.map Value.text ++ [bound]) :
    row ∈ ordinary.positiveRanks engine index ↔ RankOf engine index texts row := by
  simp only [OrdinaryQuery.positiveRanks, mem_flatMap, List.mem_map, mem_range,
    mem_text count parameters]
  constructor
  · rintro ⟨ordinal, -, textRow, ⟨text, here, inTable⟩, rfl⟩
    exact ⟨text, here, inTable⟩
  · rintro ⟨text, here, inTable⟩
    exact ⟨row.ordinal, count ▸ (List.getElem?_eq_some_iff.1 here).1, _, ⟨text, here, inTable⟩, rfl⟩

omit count

theorem mem_foldl_join {α : Type} {rows : α → List TextRow} {pageId : String} :
    ∀ (ordinals : List α) (pageIds : List String), pageId ∈ ordinals.foldl (fun pageIds ordinal =>
          (join (fun pageId row => row.pageId == pageId) pageIds (rows ordinal)).map Prod.fst)
          pageIds ↔
        pageId ∈ pageIds ∧ ∀ ordinal ∈ ordinals, ∃ row ∈ rows ordinal, row.pageId = pageId := by
  intro ordinals
  induction ordinals with
  | nil => simp
  | cons ordinal ordinals ih =>
    intro pageIds
    have joined : pageId ∈ (join (fun pageId row => row.pageId == pageId) pageIds
        (rows ordinal)).map Prod.fst ↔
        pageId ∈ pageIds ∧ ∃ row ∈ rows ordinal, row.pageId = pageId := by
      simp only [List.mem_map, Prod.exists, exists_and_right, exists_eq_right, mem_join,
        beq_iff_eq, exists_and_left]
    rw [foldl_cons, ih, joined, forall_mem_cons, and_assoc]

theorem exists_mem_text (count : ordinary.leafCount = texts.length)
    (parameters : ordinary.parameters = texts.map Value.text ++ [bound]) :
    (∃ row ∈ ordinary.text engine index ordinal, row.pageId = page.id) ↔
      ∃ text, texts[ordinal]? = some text ∧ (index.content engine).ftsMatches text page = true := by
  simp only [mem_text count parameters, ftsMatches_iff]
  constructor
  · rintro ⟨row, ⟨text, here, inTable⟩, samePage⟩
    exact ⟨text, here, row.rank, samePage ▸ inTable⟩
  · rintro ⟨text, here, rank, inTable⟩
    exact ⟨_, ⟨text, here, inTable⟩, rfl⟩

theorem mem_required (count : ordinary.leafCount = texts.length)
    (parameters : ordinary.parameters = texts.map Value.text ++ [bound]) :
    page.id ∈ ordinary.required engine index ↔
      texts ≠ [] ∧ ∀ text ∈ texts, (index.content engine).ftsMatches text page = true := by
  rw [OrdinaryQuery.required, mem_foldl_join, List.mem_map]
  simp only [exists_mem_text count parameters, mem_range'_1, count]
  constructor
  · rintro ⟨⟨first, firstAt, firstMatches⟩, others⟩
    refine ⟨ne_nil_of_mem (mem_of_getElem? firstAt), fun text member => ?_⟩
    have ⟨ordinal, here⟩ := mem_iff_getElem?.1 member
    have inRange := (List.getElem?_eq_some_iff.1 here).1
    have present : ∃ text, texts[ordinal]? = some text ∧
        (index.content engine).ftsMatches text page = true := by
      by_cases isFirst : ordinal = 0
      · exact ⟨first, isFirst ▸ firstAt, firstMatches⟩
      · exact others ordinal (by omega)
    have ⟨same, sameAt, isMatch⟩ := present
    rwa [some.inj (here.symm.trans sameAt)]
  · rintro ⟨nonempty, hasAll⟩
    have positive := length_pos_iff.2 nonempty
    have each : ∀ ordinal, ordinal < texts.length → ∃ text, texts[ordinal]? = some text ∧
        (index.content engine).ftsMatches text page = true := fun ordinal inRange =>
      ⟨_, getElem?_eq_getElem inRange, hasAll _ (getElem_mem inRange)⟩
    exact ⟨each 0 positive, fun ordinal inRange => each ordinal (by omega)⟩

def candidateOf (page : PageRow) (row : TextRank) : CandidateRow :=
  { pageId := page.id, path := page.path, title := page.title, id := page.id, rank := row.rank,
    ordinal := row.ordinal }

theorem mem_candidateMatches (conjoins : Conjoins query texts)
    (parameters : query.parameters = texts.map Value.text ++ [bound])
    (count : ordinary.leafCount = texts.length)
    (sameParameters : ordinary.parameters = texts.map Value.text ++ [bound])
    {candidate : CandidateRow} :
    candidate ∈ ordinary.candidateMatches engine index ↔
      ∃ page ∈ index.pages, ∃ row ∈ query.positiveMatches engine index,
        row.pageId = page.id ∧ candidate = candidateOf page row := by
  simp only [OrdinaryQuery.candidateMatches, List.mem_map, Prod.exists, mem_join, beq_iff_eq,
    mem_positiveRanks count sameParameters, mem_positiveMatches conjoins parameters]
  constructor
  · rintro ⟨pageId, row, page, ⟨⟨isRequired, isRank, sameRow⟩, inPages, rfl⟩, rfl⟩
    obtain ⟨-, hasAll⟩ := (mem_required count sameParameters).1 isRequired
    exact ⟨page, inPages, row, ⟨isRank, page, ⟨inPages, hasAll⟩, sameRow.symm⟩, sameRow, rfl⟩
  · rintro ⟨page, inPages, row, ⟨isRank, other, ⟨otherInPages, hasAll⟩, otherPage⟩, samePage, rfl⟩
    obtain rfl : other = page :=
      inj_on_of_nodup_map index.distinctIds otherInPages inPages (otherPage.trans samePage)
    have ⟨text, here, _⟩ := isRank
    have isRequired : other.id ∈ ordinary.required engine index :=
      (mem_required count sameParameters).2 ⟨ne_nil_of_mem (mem_of_getElem? here), hasAll⟩
    exact ⟨other.id, row, other, ⟨⟨isRequired, isRank, samePage⟩, otherInPages, rfl⟩, rfl⟩

/-! ### The chosen text of each page -/

theorem place_real_inj {left right : ℚ}
    (same : (Value.real left).place = (Value.real right).place) : left = right := by
  simpa [Value.place] using same

theorem place_integer_inj {left right : Nat}
    (same : (Value.integer left).place = (Value.integer right).place) : left = right := by
  simpa [Value.place] using same

theorem place_text_inj {left right : String}
    (same : (Value.text left).place = (Value.text right).place) : left = right := by
  simpa [Value.place] using same

theorem eq_of_precedes {first second : TextRank} (samePage : first.pageId = second.pageId)
    (before : precedes byRankAndOrdinal first second = true)
    (after : precedes byRankAndOrdinal second first = true) : first = second := by
  have same := value_eq_of_precedes before after
  simp only [byRankAndOrdinal, forall_mem_cons] at same
  have ⟨pageId, rank, ordinal⟩ := first
  have ⟨otherPageId, otherRank, otherOrdinal⟩ := second
  obtain rfl := place_real_inj same.1
  obtain rfl := place_integer_inj same.2.1
  obtain rfl : pageId = otherPageId := samePage
  rfl

theorem precedes_candidateOf (page otherPage : PageRow) (row other : TextRank) :
    precedes OrdinaryQuery.candidateOrder (candidateOf page row) (candidateOf otherPage other) =
      precedes byRankAndOrdinal row other := by
  simp only [OrdinaryQuery.candidateOrder, byRankAndOrdinal, precedes, candidateOf]

theorem mem_bestPositive :
    row ∈ query.bestPositive engine index ↔ row ∈ query.positiveMatches engine index ∧
      ∀ other ∈ query.positiveMatches engine index, other.pageId = row.pageId →
        precedes byRankAndOrdinal row other = true :=
  mem_rowNumbers fun _ _ _ _ samePage before after => eq_of_precedes samePage before after

def OrdinaryQuery.firstCandidates (engine : FtsEngine) (index : SearchIndex)
    (ordinary : OrdinaryQuery) : List CandidateRow :=
  numberedOne (rowNumbers CandidateRow.pageId candidateOrder
    (ordinary.candidateMatches engine index))

theorem mem_firstCandidates (conjoins : Conjoins query texts)
    (parameters : query.parameters = texts.map Value.text ++ [bound])
    (count : ordinary.leafCount = texts.length)
    (sameParameters : ordinary.parameters = texts.map Value.text ++ [bound])
    {candidate : CandidateRow} :
    candidate ∈ ordinary.firstCandidates engine index ↔
      ∃ page ∈ index.pages, ∃ best ∈ query.bestPositive engine index,
        best.pageId = page.id ∧ candidate = candidateOf page best := by
  have isCandidate : ∀ candidate, candidate ∈ ordinary.candidateMatches engine index ↔
      ∃ page ∈ index.pages, ∃ row ∈ query.positiveMatches engine index,
        row.pageId = page.id ∧ candidate = candidateOf page row :=
    fun _ => mem_candidateMatches conjoins parameters count sameParameters
  have samePage : ∀ page ∈ index.pages, ∀ other ∈ index.pages, page.id = other.id → page = other :=
    fun page inPages other alsoInPages =>
      inj_on_of_nodup_map index.distinctIds inPages alsoInPages
  rw [OrdinaryQuery.firstCandidates, mem_rowNumbers]
  · constructor
    · rintro ⟨member, least⟩
      obtain ⟨page, inPages, row, isMatch, ofPage, rfl⟩ := (isCandidate _).1 member
      refine ⟨page, inPages, row, mem_bestPositive.2 ⟨isMatch, fun other otherMatch same => ?_⟩,
        ofPage, rfl⟩
      have isOther := (isCandidate (candidateOf page other)).2
        ⟨page, inPages, other, otherMatch, same.trans ofPage, rfl⟩
      rw [← precedes_candidateOf page page]
      exact least _ isOther rfl
    · rintro ⟨page, inPages, best, isBest, ofPage, rfl⟩
      have ⟨isMatch, least⟩ := mem_bestPositive.1 isBest
      refine ⟨(isCandidate _).2 ⟨page, inPages, best, isMatch, ofPage, rfl⟩,
        fun other member same => ?_⟩
      obtain ⟨otherPage, _, row, otherMatch, ofOther, rfl⟩ := (isCandidate _).1 member
      rw [precedes_candidateOf]
      exact least row otherMatch ((ofOther.trans same).trans ofPage.symm)
  · intro first firstMember second secondMember samePageId before after
    obtain ⟨page, inPages, row, _, ofPage, rfl⟩ := (isCandidate _).1 firstMember
    obtain ⟨other, otherInPages, otherRow, _, ofOther, rfl⟩ := (isCandidate _).1 secondMember
    rw [precedes_candidateOf] at before after
    obtain rfl := samePage page inPages other otherInPages samePageId
    rw [eq_of_precedes (ofPage.trans ofOther.symm) before after]

/-! ### The same rows in the same order -/

def resultOrder : List (OrderTerm SearchRow (Nat ×ₗ ℚ ×ₗ String)) :=
  [ { value row := (Value.real row.rank).place, descending := false },
    { value row := (Value.text (noCase row.path)).place, descending := false },
    { value row := (Value.text row.pageId).place, descending := false } ]

theorem limitRows_map {α β : Type} (limit : Value) (f : α → β) (rows : List α) :
    (limitRows limit rows).map f = limitRows limit (rows.map f) := by
  cases limit with
  | integer count =>
    by_cases negative : count < 0
    · simp only [limitRows, if_pos negative]
    · simp only [limitRows, if_neg negative, map_take]
  | null => rfl
  | real _ => rfl
  | text _ => rfl

theorem limitRows_sublist {α : Type} (limit : Value) (rows : List α) :
    (limitRows limit rows).Sublist rows := by
  cases limit with
  | integer count =>
    by_cases negative : count < 0
    · simp only [limitRows, if_pos negative, List.Sublist.refl]
    · simp only [limitRows, if_neg negative, take_sublist]
  | null | real | text => exact List.Sublist.refl _

theorem OrdinaryQuery.rows_eq (ordinary : OrdinaryQuery)
    (ofPage : ∀ candidate ∈ ordinary.firstCandidates engine index,
      candidate.id = candidate.pageId) :
    ordinary.rows engine index =
      limitRows (boundParameter ordinary.parameters ordinary.limitParameter) (orderBy resultOrder
          ((ordinary.firstCandidates engine index).map (ordinary.resultRow engine index))) := by
  rw [OrdinaryQuery.rows, OrdinaryQuery.ranked, orderBy_of_pairwise, limitRows_map]
  · congr 1
    apply map_orderBy
    intro first firstMember second secondMember
    simp only [rankedOrder, resultOrder, precedes, OrdinaryQuery.resultRow,
      ofPage first firstMember, ofPage second secondMember]
  · exact (pairwise_orderBy _ _).sublist (limitRows_sublist _ _)

def bestOf (engine : FtsEngine) (index : SearchIndex) (query : CompiledQuery) (page : PageRow) :
    Option TextRank :=
  (query.bestPositive engine index).find? fun best => best.pageId == page.id

theorem distinct_bestPositive (query : CompiledQuery) :
    ((query.bestPositive engine index).map TextRank.pageId).Nodup :=
  nodup_keys_rowNumbers

theorem bestOf_eq_some {best : TextRank} : bestOf engine index query page = some best ↔
      best ∈ query.bestPositive engine index ∧ best.pageId = page.id :=
  find?_key_eq_some (distinct_bestPositive query)

theorem leftJoin_bestPositive (query : CompiledQuery) :
    leftJoin (fun page best => best.pageId == page.id) index.pages
        (query.bestPositive engine index) =
      index.pages.map fun page => (page, bestOf engine index query page) := by
  apply leftJoin_eq_map
  intro page _
  exact length_filter_key_le_one (distinct_bestPositive query) page.id

variable (conjoins : Conjoins query texts)
  (parameters : query.parameters = texts.map Value.text ++ [bound])

include conjoins parameters

theorem exists_bestOf (inPages : page ∈ index.pages)
    (selected : query.selects (index.content engine) page = true) :
    ∃ best, bestOf engine index query page = some best := by
  have ⟨nonempty, hasAll⟩ := (conjoins.selects _ page).1 selected
  obtain ⟨text, here⟩ : ∃ text, texts[0]? = some text :=
    ⟨_, getElem?_eq_getElem (length_pos_iff.2 nonempty)⟩
  have ⟨rank, inTable⟩ := ftsMatches_iff.1 (hasAll text (mem_of_getElem? here))
  have isMatch : ⟨page.id, rank, 0⟩ ∈ query.positiveMatches engine index :=
    (mem_positiveMatches conjoins parameters).2
      ⟨⟨text, here, inTable⟩, page, ⟨inPages, hasAll⟩, rfl⟩
  have ⟨best, isBest, samePage⟩ := exists_numberedOne isMatch
    fun _ _ _ _ same before after => eq_of_precedes same before after
  exact ⟨best, bestOf_eq_some.2 ⟨isBest, samePage⟩⟩

theorem selects_of_bestOf (inPages : page ∈ index.pages) {best : TextRank}
    (isBest : bestOf engine index query page = some best) :
    query.selects (index.content engine) page = true := by
  have ⟨member, ofPage⟩ := bestOf_eq_some.1 isBest
  have ⟨⟨text, here, _⟩, other, ⟨otherInPages, hasAll⟩, samePage⟩ :=
    (mem_positiveMatches conjoins parameters).1 (mem_bestPositive.1 member).1
  obtain rfl : other = page :=
    inj_on_of_nodup_map index.distinctIds otherInPages inPages (samePage.trans ofPage)
  exact (conjoins.selects _ other).2 ⟨ne_nil_of_mem (mem_of_getElem? here), hasAll⟩

theorem CompiledQuery.rows_eq :
    query.rows engine index = limitRows (boundParameter query.parameters query.limitParameter)
        (orderBy resultOrder
          ((index.pages.filter fun page => query.selects (index.content engine) page).map
            fun page => query.resultRow engine index (page, bestOf engine index query page))) := by
  rw [CompiledQuery.rows, leftJoin_bestPositive, limitRows_map, List.filter_map]
  congr 1
  rw [map_orderBy, List.map_map]
  · rfl
  · intro first firstMember second secondMember
    have ranked : ∀ page ∈ index.pages.filter fun page =>
          query.selects (index.content engine) page,
        ∃ best, bestOf engine index query page = some best := by
      intro page member
      have ⟨inPages, selected⟩ := mem_filter.1 member
      exact exists_bestOf conjoins parameters inPages selected
    obtain ⟨firstPage, isFirst, rfl⟩ := List.mem_map.1 firstMember
    obtain ⟨secondPage, isSecond, rfl⟩ := List.mem_map.1 secondMember
    have ⟨firstRank, firstBest⟩ := ranked firstPage isFirst
    have ⟨secondRank, secondBest⟩ := ranked secondPage isSecond
    rw [firstBest, secondBest]
    simp only [pageOrder, precedes, isSome_some, isNone_some, elim_some,
      Bool.false_and, if_true, Bool.false_eq_true, if_false]
    rfl

omit parameters

theorem resultRow_eq (sameParameters : ordinary.parameters = query.parameters)
    (count : ordinary.leafCount = texts.length) (page : PageRow) (best : TextRank) :
    query.resultRow engine index (page, some best) =
      ordinary.resultRow engine index (candidateOf page best) := by
  have places : (query.textLeaves.filter TextLeaf.positive).map
        (fun leaf => (leaf.ordinal, leaf.parameter)) =
      (List.range ordinary.leafCount).map fun ordinal => (ordinal, ordinal + 1) := by
    have each : ∀ ordinal leaf, query.textLeaves[ordinal]? = some leaf →
        leaf.positive = true ∧ (leaf.ordinal, leaf.parameter) = (ordinal, ordinal + 1) := by
      intro ordinal leaf leafAt
      have inRange : ordinal < texts.length :=
        conjoins.length ▸ (List.getElem?_eq_some_iff.1 leafAt).1
      obtain ⟨same, sameAt, number, parameter, positive, -⟩ :=
        conjoins.leaf ordinal _ (getElem?_eq_getElem inRange)
      obtain rfl := some.inj (leafAt.symm.trans sameAt)
      exact ⟨positive, by rw [number, parameter]⟩
    have allPositive : query.textLeaves.filter TextLeaf.positive = query.textLeaves := by
      apply filter_eq_self.2
      intro leaf member
      have ⟨ordinal, leafAt⟩ := mem_iff_getElem?.1 member
      exact (each ordinal leaf leafAt).1
    rw [allPositive]
    apply ext_getElem?
    intro ordinal
    rw [getElem?_map, getElem?_map]
    by_cases inRange : ordinal < query.textLeaves.length
    · have leafAt := getElem?_eq_getElem inRange
      rw [leafAt, getElem?_range (by rwa [count, ← conjoins.length]), map_some,
        (each ordinal _ leafAt).2, map_some]
    · rw [getElem?_eq_none (by omega), getElem?_eq_none (by
        rw [length_range, count, ← conjoins.length]
        omega)]
      rfl
  simp only [CompiledQuery.resultRow, OrdinaryQuery.resultRow, candidateOf, places, sameParameters,
    map_some, elim_some]

theorem rows_agree (parameters : query.parameters = texts.map Value.text ++ [bound])
    (count : ordinary.leafCount = texts.length)
    (sameParameters : ordinary.parameters = query.parameters)
    (sameLimit : ordinary.limitParameter = query.limitParameter) :
    ordinary.rows engine index = query.rows engine index := by
  have isFirst : ∀ candidate, candidate ∈ ordinary.firstCandidates engine index ↔
      ∃ page ∈ index.pages, ∃ best ∈ query.bestPositive engine index,
        best.pageId = page.id ∧ candidate = candidateOf page best :=
    fun _ => mem_firstCandidates conjoins parameters count (sameParameters.trans parameters)
  rw [CompiledQuery.rows_eq conjoins parameters, OrdinaryQuery.rows_eq, sameParameters, sameLimit]
  · have distinct : (((ordinary.firstCandidates engine index).map
        (ordinary.resultRow engine index)).map SearchRow.pageId).Nodup := by
      rw [List.map_map]
      exact nodup_keys_rowNumbers
    have alsoDistinct : (((index.pages.filter fun page =>
        query.selects (index.content engine) page).map fun page =>
          query.resultRow engine index (page, bestOf engine index query page)).map
            SearchRow.pageId).Nodup := by
      rw [List.map_map]
      exact index.distinctIds.sublist (filter_sublist.map PageRow.id)
    congr 1
    apply orderBy_eq_of_perm
    · apply (perm_ext_iff_of_nodup distinct.of_map alsoDistinct.of_map).2
      intro row
      simp only [List.mem_map, mem_filter, isFirst]
      constructor
      · rintro ⟨_, ⟨page, inPages, best, isBest, ofPage, rfl⟩, rfl⟩
        have found := bestOf_eq_some.2 ⟨isBest, ofPage⟩
        refine ⟨page, ⟨inPages, selects_of_bestOf conjoins parameters inPages found⟩, ?_⟩
        rw [found, resultRow_eq conjoins sameParameters count]
      · rintro ⟨page, ⟨inPages, selected⟩, rfl⟩
        have ⟨best, found⟩ := exists_bestOf conjoins parameters inPages selected
        have ⟨isBest, ofPage⟩ := bestOf_eq_some.1 found
        refine ⟨_, ⟨page, inPages, best, isBest, ofPage, rfl⟩, ?_⟩
        rw [found, resultRow_eq conjoins sameParameters count]
    · intro first firstMember second secondMember before after
      have same := value_eq_of_precedes before after
      simp only [resultOrder, forall_mem_cons] at same
      exact inj_on_of_nodup_map distinct firstMember secondMember (place_text_inj same.2.2.1)
  · intro candidate member
    obtain ⟨page, -, best, -, -, rfl⟩ := (isFirst candidate).1 member
    rfl

end Rows

section Statements

variable {isAlphanumeric : Char → Bool} {input : List Char}

theorem compileOrdinaryText_eq {leaves : List (String × TextMode × SearchSpan)} {limit : Nat} :
    compileOrdinaryText isAlphanumeric input leaves limit =
      (ftsTexts isAlphanumeric input leaves).map fun texts =>
        { leafCount := leaves.length,
          parameters := texts.map Value.text ++ [.integer (min limit (2 ^ 63 - 1))],
          limitParameter := texts.length + 1 } := by
  unfold compileOrdinaryText ftsTexts
  cases leaves.mapM fun (value, mode, span) =>
      ftsExpression isAlphanumeric input value mode span with
  | error failure => rfl
  | ok texts =>
    show Except.ok _ = Except.ok _
    simp

theorem map_rows_ordinary (engine : FtsEngine) (index : SearchIndex) {expression : SearchExpr}
    {leaves : List (String × TextMode × SearchSpan)}
    (ordinary : ordinaryPositiveTextLeaves expression = some leaves) (limit : Nat) :
    (compileOrdinaryText isAlphanumeric input leaves limit).map (OrdinaryQuery.rows engine index) =
      (compile isAlphanumeric input expression limit).map (CompiledQuery.rows engine index) := by
  rw [compileOrdinaryText_eq]
  cases accepted : ftsTexts isAlphanumeric input leaves with
  | error failure =>
    rw [compile_ordinary_error ordinary accepted]
    rfl
  | ok texts =>
    have ⟨query, compiles, parameters, limitParameter, numbered⟩ :=
      compile_ordinary_ok ordinary accepted limit
    have conjoins := conjoins_of_compile ordinary accepted compiles parameters numbered
    have count : leaves.length = texts.length := by
      rw [ftsTexts_eq_ok accepted, length_map]
    rw [compiles]
    exact congrArg Except.ok
      (rows_agree conjoins parameters count parameters.symm limitParameter.symm)

end Statements

/-- The same error, or the same pages, ranks and snippets. -/
theorem ordinary_text_agrees (engine : FtsEngine) (index : SearchIndex)
    (isAlphanumeric : Char → Bool) (input : List Char) {expression : SearchExpr}
    {leaves : List (String × TextMode × SearchSpan)}
    (ordinary : ordinaryPositiveTextLeaves expression = some leaves) (limit : Nat) :
    (compileOrdinaryText isAlphanumeric input leaves limit).map (OrdinaryQuery.rows engine index) =
      (compile isAlphanumeric input expression limit).map (CompiledQuery.rows engine index) :=
  map_rows_ordinary engine index ordinary limit

def sampleEngine : FtsEngine where
  isMatch fts row := (row.body == "ale beer" || row.body == "ale and beer") &&
    (fts == "\"ale\"*" || fts == "\"beer\"*")
  bm25 _ fts row := if fts == "\"beer\"*" then -2 else -(row.body.length : ℚ)⁻¹
  snippet fts row := fts ++ row.body

def sampleIndex : SearchIndex where
  pages := [⟨"1", "B.md", none, "NOTE", none, none⟩, ⟨"2", "a.md", none, "NOTE", none, none⟩,
    ⟨"3", "c.md", none, "NOTE", none, none⟩]
  tags := []
  pageProperties := []
  pagesFts := [⟨"1", "B.md", "", "ale beer"⟩, ⟨"2", "a.md", "", "ale and beer"⟩,
    ⟨"3", "c.md", "", "water"⟩]
  distinctIds := by decide

/-- `ale beer`: the pages tie, so the paths decide, without regard to case. -/
theorem ordinary_text_agrees_ale_beer :
    (compile Char.isAlphanum "ale beer".toList (.all [.text "ale" .leading ⟨0, 3⟩,
        .text "beer" .leading ⟨4, 8⟩] ⟨0, 8⟩) 1).map (CompiledQuery.rows sampleEngine sampleIndex) =
      .ok [⟨"2", "a.md", none, some 1, "\"beer\"*ale and beer", -2⟩] := by
  rw [← @ordinary_text_agrees sampleEngine sampleIndex Char.isAlphanum "ale beer".toList _
    [("ale", .leading, ⟨0, 3⟩), ("beer", .leading, ⟨4, 8⟩)] rfl 1]
  decide +kernel

/-! ### What a search finds -/

/-- The rows are those of the pages on which the expression holds, up to the limit. -/
theorem execute_finds_holding (engine : FtsEngine) (index : SearchIndex)
    (isAlphanumeric : Char → Bool) (input : List Char) {expression : SearchExpr} {limit : Nat}
    (grouped : expression.grouped = true) {rows : List SearchRow}
    (executed : execute engine index isAlphanumeric input expression limit = .ok rows) :
    ∃ found : List PageRow, found.Perm (index.pages.filter
        (expression.holds isAlphanumeric (index.content engine))) ∧
      rows.map (fun row => (row.pageId, row.path, row.title)) =
        (found.take (min limit (2 ^ 63 - 1))).map fun page => (page.id, page.path, page.title) := by
  have general : execute engine index isAlphanumeric input expression limit =
      (compile isAlphanumeric input expression limit).map (CompiledQuery.rows engine index) := by
    unfold execute compileQuery
    cases ordinary : ordinaryPositiveTextLeaves expression with
    | some leaves =>
      rw [← map_rows_ordinary engine index ordinary]
      dsimp only
      cases compileOrdinaryText isAlphanumeric input leaves limit <;> rfl
    | none => cases compile isAlphanumeric input expression limit <;> rfl
  obtain ⟨query, success, rfl⟩ := of_map_ok (general.symm.trans executed)
  obtain ⟨_, _, _, _, _, parameters, place⟩ := compile_eq success
  have bound : boundParameter query.parameters query.limitParameter =
      .integer (min limit (2 ^ 63 - 1) : Nat) := by
    simp [boundParameter, parameters, place]
  have selects := fun page => (justifies_of_compile grouped success (index.content engine) page).1
  unfold CompiledQuery.rows
  simp only [leftJoin_bestPositive, bound, limitRows, selects, List.filter_map]
  rw [if_neg (by omega), Int.toNat_natCast]
  refine ⟨(orderBy CompiledQuery.pageOrder ((index.pages.filter
    (expression.holds isAlphanumeric (index.content engine))).map fun page =>
      (page, bestOf engine index query page))).map Prod.fst, ?_, ?_⟩
  · apply ((orderBy_perm _ _).map _).trans
    rw [List.map_map]
    exact .of_eq (map_id _)
  · rw [← map_take, List.map_map, List.map_map]
    rfl

/-- `-ale` -/
theorem execute_finds_holding_not_ale : ∃ rows, execute sampleEngine sampleIndex Char.isAlphanum []
    (.not (.text "ale" .leading ⟨1, 4⟩) ⟨0, 4⟩) 7 = .ok rows ∧ rows.length = 1 := by
  refine ⟨_, rfl, ?_⟩
  obtain ⟨found, isFound, shown⟩ := @execute_finds_holding sampleEngine sampleIndex
    Char.isAlphanum [] (.not (.text "ale" .leading ⟨1, 4⟩) ⟨0, 4⟩) 7 rfl _ rfl
  have count : found.length = 1 := isFound.length_eq.trans (by decide +kernel)
  simpa [count] using congrArg length shown

end Clepsydra.Search
