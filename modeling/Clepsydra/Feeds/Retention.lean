import Clepsydra.Feeds.Manifest
import Clepsydra.Library.Transitions

/-!
Owns: the entries of the feed store as fetches, marks, pruning and quotas change them.

Proves: while each fetch that lists a read entry finds its row, it stays read. An instant is its
count of nanoseconds.
-/

namespace Clepsydra.Feeds.Retention

open Library Library.Transitions Library.Pieces List Option

/-! ### The store -/

structure Feed where
  id : Nat
  groupName : String

/-- A row of `entry`, with its rows of `entry_tag`. -/
structure Entry where
  id : Nat
  feedId : Nat
  guid : String
  contentHtml : Option String
  publishedAt : Option Int
  fetchedAt : Int
  readAt : Option Int
  bookmarkedAt : Option Int
  tags : List (List Char)

/-- `UNIQUE(feed_id, guid)`. -/
def Unique (rows : List Entry) : Prop :=
  ∀ left ∈ rows, ∀ right ∈ rows, left.feedId = right.feedId → left.guid = right.guid → left = right

structure Store where
  feeds : List Feed
  entries : List Entry
  unique : Unique entries

def Entry.IsOf (entry : Entry) (feedId : Nat) (guid : String) : Prop :=
  entry.feedId = feedId ∧ entry.guid = guid
deriving Decidable

theorem unique_filter {rows : List Entry} (unique : Unique rows) (kept : Entry → Bool) :
    Unique (rows.filter kept) :=
  fun left leftIn right rightIn =>
    unique left (mem_of_mem_filter leftIn) right (mem_of_mem_filter rightIn)

theorem unique_map {rows : List Entry} (unique : Unique rows) {change : Entry → Entry}
    (keeps : ∀ row, (change row).feedId = row.feedId ∧ (change row).guid = row.guid) :
    Unique (rows.map change) := by
  simp only [Unique, List.forall_mem_map]
  intro left leftIn right rightIn sameFeed sameGuid
  rw [(keeps left).1, (keeps right).1] at sameFeed
  rw [(keeps left).2, (keeps right).2] at sameGuid
  rw [unique left leftIn right rightIn sameFeed sameGuid]

/-- `DELETE`. -/
def Store.keep (store : Store) (kept : Entry → Bool) : Store := { store with
    entries := store.entries.filter kept
    unique := unique_filter store.unique kept }

/-- `UPDATE`, of columns that are in no key. -/
def Store.update (store : Store) (change : Entry → Entry)
    (keeps : ∀ row, (change row).feedId = row.feedId ∧ (change row).guid = row.guid) : Store :=
  { store with
    entries := store.entries.map change
    unique := unique_map store.unique keeps }

/-! ### Fetches -/

structure FetchedEntry where
  guid : String
  contentHtml : Option String
  publishedAt : Option Int
  fetchedAt : Int

/-- The row that `INSERT` adds. -/
def FetchedEntry.row (entry : FetchedEntry) (id feedId : Nat) : Entry where
  id := id
  feedId := feedId
  guid := entry.guid
  contentHtml := entry.contentHtml
  publishedAt := entry.publishedAt
  fetchedAt := entry.fetchedAt
  readAt := none
  bookmarkedAt := none
  tags := []

/-- `ON CONFLICT(feed_id, guid) DO UPDATE`. -/
def FetchedEntry.refresh (entry : FetchedEntry) (feedId : Nat) (row : Entry) : Entry :=
  if row.IsOf feedId entry.guid then
    { row with
      contentHtml := entry.contentHtml
      publishedAt := row.publishedAt.or entry.publishedAt }
  else row

theorem refresh_keeps (entry : FetchedEntry) (feedId : Nat) (row : Entry) :
    (entry.refresh feedId row).feedId = row.feedId ∧ (entry.refresh feedId row).guid = row.guid ∧
      (entry.refresh feedId row).readAt = row.readAt := by
  unfold FetchedEntry.refresh
  split <;> exact ⟨rfl, rfl, rfl⟩

def Store.Lists (store : Store) (feedId : Nat) (guid : String) : Prop :=
  ∃ row ∈ store.entries, row.IsOf feedId guid

instance (store : Store) (feedId : Nat) (guid : String) : Decidable (store.Lists feedId guid) :=
  inferInstanceAs (Decidable (∃ row ∈ store.entries, _))

def Store.nextId (store : Store) : Nat := (store.entries.map Entry.id).foldr max 0 + 1

variable {store : Store} {entry : FetchedEntry}

theorem unique_insert {feedId : Nat} (absent : ¬store.Lists feedId entry.guid) :
    Unique (store.entries ++ [entry.row store.nextId feedId]) := by
  intro left leftIn right rightIn sameFeed sameGuid
  rw [mem_append, mem_singleton] at leftIn rightIn
  obtain leftIn | rfl := leftIn
  · obtain rightIn | rfl := rightIn
    · exact store.unique left leftIn right rightIn sameFeed sameGuid
    · exact absurd ⟨left, leftIn, sameFeed, sameGuid⟩ absent
  · obtain rightIn | rfl := rightIn
    · exact absurd ⟨right, rightIn, sameFeed.symm, sameGuid.symm⟩ absent
    · rfl

/-- One round of `upsert_entries`. -/
def Store.upsertEntry (feedId : Nat) (store : Store) (entry : FetchedEntry) : Store :=
  if absent : ¬store.Lists feedId entry.guid then
    { store with
      entries := store.entries ++ [entry.row store.nextId feedId]
      unique := unique_insert absent }
  else
    store.update (entry.refresh feedId) fun row =>
      ⟨(refresh_keeps entry feedId row).1, (refresh_keeps entry feedId row).2.1⟩

def Store.upsertEntries (store : Store) (feedId : Nat) (entries : List FetchedEntry) : Store :=
  entries.foldl (Store.upsertEntry feedId) store

/-- A row is not behind another in `ORDER BY fetched_at DESC, id DESC`. -/
def Entry.ranksBy (other row : Entry) : Bool :=
  decide (row.fetchedAt < other.fetchedAt ∨ row.fetchedAt = other.fetchedAt ∧ row.id ≤ other.id)

/-- `COALESCE(length(CAST(content_html AS BLOB)), 0)`. -/
def Entry.contentBytes (row : Entry) : Nat := (row.contentHtml.map String.utf8ByteSize).getD 0

/-- One `DELETE` of `enforce_retention_quotas`, over the rows that are counted. -/
def Store.enforceQuota (counted : Entry → Bool) (entries contentBytes : Nat) (store : Store) :
    Store :=
  store.keep fun row =>
    let ranked := store.entries.filter fun other => counted other && other.ranksBy row
    !(counted row && (decide (entries < ranked.length) ||
        decide (contentBytes < (ranked.map Entry.contentBytes).sum)))

structure RetentionQuotaLimits where
  perFeedEntries : Nat
  perFeedContentBytes : Nat
  globalEntries : Nat
  globalContentBytes : Nat

/-- `RETENTION_QUOTA_LIMITS`. -/
def retentionQuotaLimits : RetentionQuotaLimits where
  perFeedEntries := 5000
  perFeedContentBytes := 128 * 1048576
  globalEntries := 50000
  globalContentBytes := 1024 * 1048576

def Store.enforceRetentionQuotas (store : Store) (feedId : Nat) (limits : RetentionQuotaLimits) :
    Store :=
  (store.enforceQuota (fun row => row.feedId = feedId && row.bookmarkedAt.isNone)
    limits.perFeedEntries limits.perFeedContentBytes).enforceQuota
    (fun row => row.bookmarkedAt.isNone) limits.globalEntries limits.globalContentBytes

/-- `apply_fetch`, of a fetch that succeeds. -/
def Store.applyFetch (store : Store) (feedId : Nat) (entries : List FetchedEntry) : Option Store :=
  if store.feeds.any fun feed => feed.id = feedId then
    some ((store.upsertEntries feedId entries).enforceRetentionQuotas feedId retentionQuotaLimits)
  else none

/-! ### Pruning -/

/-- `DateTime::<Utc>::MIN_UTC`. -/
def minUtc : Int := -8334601228800 * 10 ^ 9

/-- `Duration::seconds` refuses more seconds than an `i64` holds as milliseconds. -/
def retentionCutoff (now : Int) (days : Nat) : Option Int :=
  let seconds : Nat := min (days * 86400) (2 ^ 63 - 1)
  if seconds ≤ (2 ^ 63 - 1) / 1000 then some (max minUtc (now - seconds * 10 ^ 9)) else none

def Store.prune (store : Store) (now : Int) (retentionDays unreadRetentionDays : Nat) :
    Option Store := do
  let readCutoff ← retentionCutoff now retentionDays
  let unreadCutoff ← retentionCutoff now unreadRetentionDays
  return store.keep fun row =>
    !(row.bookmarkedAt.isNone && (row.readAt.isSome && decide (row.fetchedAt < readCutoff) ||
        row.readAt.isNone && decide (row.fetchedAt < unreadCutoff)))

/-! ### Marks -/

structure EntryPatch where
  read : Option Bool
  bookmarked : Option Bool
  tags : Option (List (List Char))

def normalizeTags (tags : List (List Char)) : List (List Char) :=
  (tags.map fun tag => trim (bareTag tag)).filter (· ≠ [])

def EntryPatch.apply (patch : EntryPatch) (now : Int) (row : Entry) : Entry := { row with
    readAt := patch.read.elim row.readAt fun read => if read then some now else none
    bookmarkedAt := patch.bookmarked.elim row.bookmarkedAt fun bookmarked =>
      if bookmarked then some now else none
    tags := (patch.tags.map normalizeTags).getD row.tags }

def Store.patchEntry (store : Store) (id : Nat) (patch : EntryPatch) (now : Int) : Option Store :=
  if store.entries.any fun row => row.id = id then
    some (store.update (fun row => if row.id = id then patch.apply now row else row) fun row => by
      split <;> exact ⟨rfl, rfl⟩)
  else none

structure EntryCursor where
  sortTs : Int
  id : Nat

structure MarkReadScope where
  feedIds : List Nat
  groups : List String
  tag : Option (List Char)
  before : Option EntryCursor

/-- The `WHERE` clause of `mark_read`. -/
def MarkReadScope.includes (scope : MarkReadScope) (feeds : List Feed) (row : Entry) : Bool :=
  row.readAt.isNone && (scope.feedIds.isEmpty || scope.feedIds.contains row.feedId) &&
  (scope.groups.isEmpty || feeds.any fun feed =>
    feed.id = row.feedId && scope.groups.contains feed.groupName) &&
  scope.tag.all row.tags.contains &&
  scope.before.all fun before =>
    let sortTs := row.publishedAt.getD row.fetchedAt
    decide (sortTs < before.sortTs ∨ sortTs = before.sortTs ∧ row.id ≤ before.id)

def Store.markRead (store : Store) (scope : MarkReadScope) (now : Int) : Store := store.update
    (fun row => if scope.includes store.feeds row then { row with readAt := some now } else row)
    fun row => by split <;> exact ⟨rfl, rfl⟩

theorem Store.eq_of_isOf (store : Store) {left right : Entry} {feedId : Nat} {guid : String}
    (leftIn : left ∈ store.entries) (rightIn : right ∈ store.entries)
    (ofLeft : left.IsOf feedId guid) (ofRight : right.IsOf feedId guid) : left = right :=
  store.unique left leftIn right rightIn (ofLeft.1.trans ofRight.1.symm)
    (ofLeft.2.trans ofRight.2.symm)

/-! ### Runs -/

inductive Action where
  | fetch (feedId : Nat) (entries : List FetchedEntry)
  | prune (now : Int) (retentionDays unreadRetentionDays : Nat)
  | patch (id : Nat) (patch : EntryPatch) (now : Int)
  | markRead (scope : MarkReadScope) (now : Int)

def Store.apply (store : Store) : Action → Option Store
  | .fetch feedId entries => store.applyFetch feedId entries
  | .prune now retentionDays unreadRetentionDays =>
    store.prune now retentionDays unreadRetentionDays
  | .patch id patch now => store.patchEntry id patch now
  | .markRead scope now => some (store.markRead scope now)

/-- The store, and whether the user's last mark of one entry says that it is read. -/
structure State where
  store : Store
  marked : Bool

variable {feedId : Nat} {guid : String}

/-- What an action of the user says of the entry. -/
def Store.mark (store : Store) (feedId : Nat) (guid : String) : Action → Option Bool
  | .patch id patch _ =>
    if ∃ row ∈ store.entries, row.id = id ∧ row.IsOf feedId guid then patch.read else none
  | .markRead scope _ =>
    if ∃ row ∈ store.entries, scope.includes store.feeds row = true ∧ row.IsOf feedId guid then
      some true
    else none
  | _ => none

def step (feedId : Nat) (guid : String) (state : State) (action : Action) : Option State :=
  (state.store.apply action).map fun store =>
    ⟨store, (state.store.mark feedId guid action).getD state.marked⟩

/-- A fetch that lists the entry while it is marked read finds its row. -/
def FindsRow (feedId : Nat) (guid : String) (state : State) : Action → Prop
  | .fetch fetched entries =>
    state.marked = true → fetched = feedId → (∃ entry ∈ entries, entry.guid = guid) →
      state.store.Lists feedId guid
  | _ => True

instance (state : State) : (action : Action) → Decidable (FindsRow feedId guid state action)
  | .fetch fetched _ => inferInstanceAs (Decidable (state.marked = true → fetched = feedId → _))
  | .prune .. | .patch .. | .markRead .. => isTrue trivial

/-- No row of the entry is unread. -/
def Store.ShowsRead (store : Store) (feedId : Nat) (guid : String) : Prop :=
  ∀ row ∈ store.entries, row.IsOf feedId guid → row.readAt ≠ none

theorem showsRead_keep (shows : store.ShowsRead feedId guid) (kept : Entry → Bool) :
    (store.keep kept).ShowsRead feedId guid :=
  fun row kept => shows row (mem_of_mem_filter kept)

theorem lists_upsertEntry {fetched : Nat} (lists : store.Lists feedId guid) :
    (store.upsertEntry fetched entry).Lists feedId guid := by
  have ⟨row, rowIn, isOf⟩ := lists
  unfold Store.upsertEntry
  split
  · exact ⟨row, mem_append_left _ rowIn, isOf⟩
  · have keeps := refresh_keeps entry fetched row
    refine ⟨_, List.mem_map_of_mem rowIn, ?_⟩
    exact ⟨keeps.1.trans isOf.1, keeps.2.1.trans isOf.2⟩

/-- A row that is there is updated, and its read state stays. -/
theorem showsRead_upsertEntry {fetched : Nat} (shows : store.ShowsRead feedId guid)
    (finds : fetched = feedId → entry.guid = guid → store.Lists feedId guid) :
    (store.upsertEntry fetched entry).ShowsRead feedId guid := by
  unfold Store.upsertEntry
  intro row
  split
  next absent =>
    intro rowIn isOf
    obtain rowIn | added := mem_append.1 rowIn
    · exact shows row rowIn isOf
    · rw [mem_singleton.1 added] at isOf
      have ⟨sameFeed, sameGuid⟩ := isOf
      subst sameFeed sameGuid
      exact absurd (finds rfl rfl) absent
  next =>
    intro rowIn isOf
    obtain ⟨old, oldIn, rfl⟩ := List.mem_map.1 rowIn
    have ⟨sameFeed, sameGuid, sameRead⟩ := refresh_keeps entry fetched old
    rw [sameRead]
    exact shows old oldIn ⟨sameFeed.symm.trans isOf.1, sameGuid.symm.trans isOf.2⟩

theorem showsRead_upsertEntries {fetched : Nat} {entries : List FetchedEntry}
    (shows : store.ShowsRead feedId guid)
    (finds : fetched = feedId → (∃ entry ∈ entries, entry.guid = guid) → store.Lists feedId guid) :
    (store.upsertEntries fetched entries).ShowsRead feedId guid := by
  unfold Store.upsertEntries
  induction entries generalizing store with
  | nil => exact shows
  | cons entry rest ih =>
    rw [foldl_cons]
    apply ih
    · apply showsRead_upsertEntry shows
      intro sameFeed sameGuid
      exact finds sameFeed ⟨entry, mem_cons_self, sameGuid⟩
    · intro sameFeed listed
      apply lists_upsertEntry
      apply finds sameFeed
      have ⟨other, otherIn, sameGuid⟩ := listed
      exact ⟨other, mem_cons_of_mem entry otherIn, sameGuid⟩

/-- An update that gives every row of the entry a read state, or leaves those it has. -/
theorem showsRead_update {change : Entry → Entry}
    {keeps : ∀ row, (change row).feedId = row.feedId ∧ (change row).guid = row.guid}
    (shows : ∀ row ∈ store.entries, row.IsOf feedId guid → (change row).readAt ≠ none) :
    (store.update change keeps).ShowsRead feedId guid := by
  intro row rowIn isOf
  obtain ⟨old, oldIn, rfl⟩ := List.mem_map.1 rowIn
  exact shows old oldIn ⟨(keeps old).1.symm.trans isOf.1, (keeps old).2.symm.trans isOf.2⟩

theorem showsRead_step {state next : State} {action : Action}
    (shows : state.marked = true → state.store.ShowsRead feedId guid)
    (finds : FindsRow feedId guid state action)
    (steps : step feedId guid state action = some next) :
    next.marked = true → next.store.ShowsRead feedId guid := by
  obtain ⟨store, applied, rfl⟩ := map_eq_some_iff.1 steps
  intro marked
  cases action with
  | fetch fetched entries =>
    obtain ⟨-, fetches⟩ := ite_none_right_eq_some.1 applied
    rw [← some.inj fetches]
    apply showsRead_keep
    apply showsRead_keep
    exact showsRead_upsertEntries (shows marked) (finds marked)
  | prune now retentionDays unreadRetentionDays =>
    obtain ⟨readCutoff, -, rest⟩ := bind_eq_some_iff.1 applied
    obtain ⟨unreadCutoff, -, prunes⟩ := bind_eq_some_iff.1 rest
    rw [← some.inj prunes]
    exact showsRead_keep (shows marked) _
  | patch id patch now =>
    obtain ⟨-, patches⟩ := ite_none_right_eq_some.1 applied
    rw [← some.inj patches]
    refine @showsRead_update _ _ _ _ (fun row => by split <;> exact ⟨rfl, rfl⟩) ?_
    intro row rowIn isOf
    by_cases sameId : row.id = id
    · rw [if_pos sameId]
      rw [Store.mark, if_pos ⟨row, rowIn, sameId, isOf⟩] at marked
      cases read : patch.read with
      | none =>
        rw [read] at marked
        rw [EntryPatch.apply, read]
        exact shows marked row rowIn isOf
      | some isRead =>
        rw [read, getD_some] at marked
        have isTrue : isRead = true := marked
        rw [EntryPatch.apply, read, isTrue]
        exact some_ne_none now
    · rw [if_neg sameId]
      rw [Store.mark, if_neg] at marked
      · exact shows marked row rowIn isOf
      · rintro ⟨other, otherIn, sameOther, otherOf⟩
        rw [state.store.eq_of_isOf otherIn rowIn otherOf isOf] at sameOther
        exact sameId sameOther
  | markRead scope now =>
    rw [← some.inj applied]
    refine @showsRead_update _ _ _ _ (fun row => by split <;> exact ⟨rfl, rfl⟩) ?_
    intro row rowIn isOf
    by_cases included : scope.includes state.store.feeds row = true
    · rw [if_pos included]
      exact some_ne_none now
    · rw [if_neg included]
      rw [Store.mark, if_neg] at marked
      · exact shows marked row rowIn isOf
      · rintro ⟨other, otherIn, includes, otherOf⟩
        rw [state.store.eq_of_isOf otherIn rowIn otherOf isOf] at includes
        exact included includes

/-- **While each fetch that lists a read entry finds its row, the entry is not shown unread.** -/
theorem read_stays_read {store : Store} {actions : List Action} {final : State}
    (finds : Throughout (step feedId guid) (FindsRow feedId guid) ⟨store, false⟩ actions)
    (runs : run (step feedId guid) ⟨store, false⟩ actions = some final)
    (marked : final.marked = true) : final.store.ShowsRead feedId guid :=
  invariant_of_throughout (fun _ _ _ shows finds => showsRead_step shows finds)
    (fun marked => absurd marked Bool.false_ne_true) finds runs marked

/-! ### A run -/

def exampleStore : Store := ⟨[⟨1, "News"⟩], [], fun _ found => absurd found not_mem_nil⟩

def examplePatch : EntryPatch := ⟨some true, none, none⟩

def exampleMarked : List Action := [.fetch 1 [⟨"guid-1", none, none, 0⟩], .patch 1 examplePatch 5]

theorem read_stays_read_exampleStore : ∃ final, run (step 1 "guid-1") ⟨exampleStore, false⟩
      (exampleMarked ++ [.fetch 1 [⟨"guid-1", some "text", none, 9⟩]]) = some final ∧
      final.store.ShowsRead 1 "guid-1" :=
  ⟨_, rfl, @read_stays_read 1 "guid-1" exampleStore
    (exampleMarked ++ [.fetch 1 [⟨"guid-1", some "text", none, 9⟩]]) _ (by decide) rfl rfl⟩

/-- An entry is pruned 31 days after its first fetch, and shown unread when it is listed again. -/
theorem unread_after_prune : ∃ final, run (step 1 "guid-1") ⟨exampleStore, false⟩
      (exampleMarked ++ [.prune (31 * 86400 * 10 ^ 9) 30 90,
        .fetch 1 [⟨"guid-1", none, none, 31 * 86400 * 10 ^ 9⟩]]) = some final ∧
      final.marked = true ∧ ¬final.store.ShowsRead 1 "guid-1" := by
  refine ⟨_, rfl, rfl, fun shows => ?_⟩
  exact shows _ mem_cons_self ⟨rfl, rfl⟩ rfl

end Clepsydra.Feeds.Retention
